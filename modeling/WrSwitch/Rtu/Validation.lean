import WrSwitch.Rtu.Exports
import WrSwitch.Rtu.Table

/-!
# Validation of requests

Which requests the handlers refuse, and which of those that they act on keep every index and
every shift count in its range.
-/
namespace WrSwitch.Rtu

open Machine MiniRpc

/-! ### What a handler did -/

/-- The events that carry an index or a shift count. -/
def Event.Ranged : Event → Prop
  | .index _ _ | .shift _ => True
  | .wr _ _ | .epWr _ _ _ | .rdGcr | .trigGcr | .pollGcr => False

/-- The index or the shift count is in range on a switch with `nports` ports. -/
def InRange (nports : Int) : Event → Prop
  | .index .vlanTab i => 0 ≤ i ∧ i < numVlans
  | .index .portsCfg i | .index .endpoint i => 0 ≤ i ∧ i < halMaxPorts ∧ i < nports
  | .shift count => 0 ≤ count ∧ count < 32
  | .wr _ _ | .epWr _ _ _ | .rdGcr | .trigGcr | .pollGcr => True

private theorem inRange_access (nports : Int) (e : Event) (access : ¬e.Ranged) :
    InRange nports e := by
  cases e with
  | index | shift => exact absurd trivial access
  | wr | epWr | rdGcr | trigGcr | pollGcr => trivial

/-- All that was done between two states has the property. -/
def Logs (p : Event → Prop) (s s' : RtuState) : Prop :=
  ∃ es, s'.trace = s.trace ++ es ∧ ∀ e ∈ es, p e

/-- The request was refused with nothing done, or was carried out within all ranges. -/
def Validated (s : RtuState) (r : Int × RtuState) : Prop :=
  (r.1 < 0 ∧ r.2 = s) ∨ Logs (InRange s.halNportsLocal.val) s r.2

variable {p : Event → Prop} {s s' s'' : RtuState}

private theorem Logs.of_trace (same : s'.trace = s.trace) : Logs p s s' :=
  ⟨[], by simp [same], fun _ impossible => by cases impossible⟩

theorem Logs.refl (s : RtuState) : Logs p s s := .of_trace rfl

theorem Logs.trans (first : Logs p s s') (second : Logs p s' s'') : Logs p s s'' := by
  obtain ⟨es, trace, all⟩ := first
  obtain ⟨fs, trace', all'⟩ := second
  refine ⟨es ++ fs, by rw [trace', trace, List.append_assoc], ?_⟩
  intro e member
  rcases List.mem_append.mp member with early | late
  · exact all e early
  · exact all' e late

/-- A log of allowed events. -/
theorem Logs.emitAll (es : List Event) (all : ∀ e ∈ es, p e) : Logs p s (s.emitAll es) :=
  ⟨es, emitAll_trace s es, all⟩

theorem Logs.emit {e : Event} (holds : p e) : Logs p s (s.emit e) :=
  Logs.emitAll [e] fun _ member => List.mem_singleton.mp member ▸ holds

/-- A loop logs what its turns log. -/
theorem Logs.foldl {β : Type} (body : RtuState → β → RtuState) (bs : List β)
    (turn : ∀ b ∈ bs, ∀ s, Logs p s (body s b)) : Logs p s (bs.foldl body s) := by
  induction bs generalizing s with
  | nil => exact .refl s
  | cons b bs ih =>
    rw [List.foldl_cons]
    exact (turn b List.mem_cons_self s).trans
      (ih fun c member => turn c (List.mem_cons_of_mem _ member))

/-- A handler that does not fail has to keep the range of all that it logs. -/
theorem validated_iff {ret : Int} {es : List Event} (success : 0 ≤ ret)
    (trace : s'.trace = s.trace ++ es) :
    Validated s (ret, s') ↔ ∀ e ∈ es, InRange s.halNportsLocal.val e := by
  constructor
  · rintro (⟨failed, _⟩ | ⟨fs, trace', all⟩)
    · exact absurd failed (Int.not_lt.mpr success)
    · have same : es = fs := List.append_cancel_left (trace.symm.trans trace')
      exact same ▸ all
  · exact fun all => .inr ⟨es, trace, all⟩

/-- It is enough to look at the indices and the shift counts. -/
theorem validated_iff_ranged {ret : Int} {ranged es : List Event} (success : 0 ≤ ret)
    (trace : s'.trace = s.trace ++ (ranged ++ es)) (access : ∀ e ∈ es, ¬e.Ranged) :
    Validated s (ret, s') ↔ ∀ e ∈ ranged, InRange s.halNportsLocal.val e := by
  rw [validated_iff success trace]
  constructor
  · exact fun all e member => all e (List.mem_append_left _ member)
  · intro all e member
    rcases List.mem_append.mp member with checked | other
    · exact all e checked
    · exact inRange_access _ e (access e other)

/-- A refusal changes nothing. -/
theorem Validated.refused (s : RtuState) : Validated s (-1, s) := .inl ⟨Int.negSucc_lt_zero 0, rfl⟩

/-! ### The driver -/

/-- The scan and the commit of a removing operation. -/
theorem sweep_trace (logged : RtuFilteringEntry → List Event)
    (doomed : RtuFilteringEntry → Bool) (s : RtuState) :
    (rtuFdCommit (queueRemovals logged doomed s)).trace = s.trace ++
      (scanEvents s.rtuHtab logged ++
        commitEvents s.rtuHtab (s.hwReqList ++ removalReqs s.rtuHtab doomed)) := by
  rw [rtuFdCommit_eq, emitAll_trace, queueRemovals_eq]
  simp only [emitAll_eq, List.append_assoc]

section Driver

variable (access : ∀ e : Event, ¬e.Ranged → p e)
include access

private theorem logs_rtuWr (reg : RtuReg) (val : Word) : Logs p s (rtuWr reg val s) :=
  Logs.emit (access _ id)

private theorem logs_writeMfifo (sel val : Word) : ∀ e ∈ writeMfifoEvents sel val, p e := by
  intro e member
  simp only [writeMfifoEvents, List.mem_cons, List.not_mem_nil, or_false] at member
  rcases member with rfl | rfl
  · exact access _ id
  · exact access _ id

private theorem logs_burst (zbtAddr : Nat) (words : List Word) (flush : Bool) :
    ∀ e ∈ burstEvents zbtAddr words flush, p e := by
  intro e member
  simp only [burstEvents, List.mem_append, List.mem_flatMap] at member
  rcases member with (address | ⟨word, _, data⟩) | final
  · exact logs_writeMfifo access _ _ e address
  · exact logs_writeMfifo access _ _ e data
  · split at final
    · simp only [flushEvents, List.mem_cons, List.not_mem_nil, or_false] at final
      rcases final with rfl | rfl | rfl
      · exact access _ id
      · exact access _ id
      · exact access _ id
    · cases final

private theorem logs_commitReq (t : Htab) (req : HwReq) : ∀ e ∈ commitReqEvents t req, p e := by
  intro e member
  simp only [commitReqEvents] at member
  split at member
  · exact logs_burst access _ _ _ e member
  · simp only [rowEvents, List.mem_flatMap] at member
    obtain ⟨i, _, burst⟩ := member
    exact logs_burst access _ _ _ e burst

private theorem logs_commitEvents (t : Htab) (reqs : List HwReq) :
    ∀ e ∈ commitEvents t reqs, p e := by
  induction reqs generalizing t with
  | nil => exact fun _ impossible => by cases impossible
  | cons req reqs ih =>
    intro e member
    rcases List.mem_append.mp member with first | later
    · exact logs_commitReq access t req e first
    · exact ih _ e later

private theorem logs_rtuFdCommit : Logs p s (rtuFdCommit s) := by
  rw [rtuFdCommit_eq]
  exact ⟨commitEvents s.rtuHtab s.hwReqList, emitAll_trace _ _, logs_commitEvents access _ _⟩

private theorem logs_rtuFdCreateEntry (mac : Mac) (vid : BitVec 16) (portMask dynamic : Word)
    (atExistingEntry : Int) (now : Word) (index : p (.index .vlanTab vid.toNat)) :
    Logs p s (rtuFdCreateEntry mac vid portMask dynamic atExistingEntry now s).2 := by
  refine Logs.trans (Logs.emit index) ?_
  simp only [rtuFdCreateEntry]
  split
  · split
    · refine Logs.trans (Logs.of_trace ?_) (logs_rtuFdCommit access)
      simp only [fdUpdateEntry]
      split
      · rfl
      · split <;> rfl
    · split
      · exact .refl _
      · exact Logs.trans (Logs.of_trace rfl) (logs_rtuFdCommit access)
  · exact logs_rtuFdCommit access

private theorem logs_setPcrFlag (bit : Word) (port : Int) (flag : Word) :
    Logs p s (setPcrFlagOnPort bit port flag s).2 := by
  simp only [setPcrFlagOnPort]
  split
  · exact .refl s
  · exact (logs_rtuWr access _ _).trans ((logs_rtuWr access _ _).trans (logs_rtuWr access _ _))

private theorem logs_readPcrFlag (bit : Word) (port : Int) :
    Logs p s (readPcrFlagOnPort bit port s).2 := by
  simp only [readPcrFlagOnPort]
  split
  · exact .refl s
  · exact logs_rtuWr access _ _

private theorem logs_rtuWritePortCfgHw (hwIndex : Byte)
    (config : p (.index .portsCfg hwIndex.toNat))
    (endpoint : p (.index .endpoint hwIndex.toNat)) : Logs p s (rtuWritePortCfgHw hwIndex s) := by
  simp only [rtuWritePortCfgHw]
  refine Logs.trans ?_ (Logs.foldl _ _ fun i _ s => ?_)
  · exact (Logs.emit config).trans ((Logs.emit endpoint).trans (Logs.emit (access _ id)))
  · split
    · exact Logs.emit (access _ id)
    · exact Logs.emit (access _ id)

end Driver

/-! ### Handlers that keep every range -/

private theorem logs_readFlags (read : Int → RtuState → Int × RtuState) (portMask : Word)
    (each : ∀ (i : Int) (s : RtuState), Logs p s (read i s).2) (is : List Nat) (flags : Word) :
    Logs p s (readFlags read portMask is flags s).2 := by
  induction is generalizing s flags with
  | nil => exact .refl s
  | cons i is ih =>
    simp only [readFlags]
    split
    · split
      · exact each i s
      · exact (each i s).trans (ih _)
    · exact ih _

private theorem logs_setFlags (set : Int → Word → RtuState → Int × RtuState)
    (enable portMask : Word)
    (each : ∀ (i : Int) (s : RtuState), Logs p s (set i enable s).2) (is : List Nat) (ret : Int) :
    Logs p s (setFlags set enable portMask is ret s).2 := by
  induction is generalizing s ret with
  | nil => exact .refl s
  | cons i is ih =>
    simp only [setFlags]
    split
    · split
      · exact each i s
      · exact (each i s).trans (ih _)
    · exact ih _

/-- The loops over the port mask may stop at any port, but each port is in range. -/
theorem validated_portFlags (getOper setOper bit : Word) (args : Mem) :
    Validated s (portFlags getOper setOper (readPcrFlagOnPort bit) (setPcrFlagOnPort bit) args s) := by
  simp only [portFlags]
  split
  · exact .refused s
  · split
    · exact .inr (logs_readFlags _ _ (fun _ _ => logs_readPcrFlag (inRange_access _) _ _) _ _)
    · split
      · exact .inr (logs_setFlags _ _ _ (fun _ _ => logs_setPcrFlag (inRange_access _) _ _ _) _ _)
      · exact .refused s

private theorem vid_inRange {vid : Int} (inside : ¬(0 > vid ∨ vid > 0xFFF)) :
    InRange nports (.index .vlanTab (BitVec.ofInt 16 vid).toNat) := by
  have limit : numVlans = 4096 := rfl
  simp only [InRange, BitVec.toNat_ofInt]
  omega

private theorem validated_addEntry (pd : MinipcPd RtudExp) (args : Mem) (env : RtudEnv) :
    Validated s (rtudexpAddEntry pd args env s) := by
  simp only [rtudexpAddEntry]
  split
  · exact .refused s
  · split
    · exact .refused s
    · split
      · exact .refused s
      · split
        · exact .refused s
        next inside =>
          exact .inr (logs_rtuFdCreateEntry (inRange_access _) _ _ _ _ _ _ (vid_inRange inside))

/-- A removing operation is as good as the shifts its scan evaluates. -/
theorem validated_sweep {ret : Int} (success : 0 ≤ ret)
    (logged : RtuFilteringEntry → List Event) (doomed : RtuFilteringEntry → Bool) :
    Validated s (ret, rtuFdCommit (queueRemovals logged doomed s)) ↔
      ∀ ij ∈ slots, ∀ e ∈ logged (s.rtuHtab ij.1 ij.2), InRange s.halNportsLocal.val e := by
  rw [validated_iff_ranged success (sweep_trace logged doomed s)
    (logs_commitEvents (fun _ access => access) _ _)]
  simp only [scanEvents, List.mem_flatMap, List.mem_reverse]
  exact ⟨fun all ij slot e member => all e ⟨ij, slot, member⟩,
    fun all e ⟨ij, slot, member⟩ => all ij slot e member⟩

private theorem validated_removeEntry (pd : MinipcPd RtudExp) (args : Mem) :
    Validated s (rtudexpRemoveEntry pd args s) := by
  simp only [rtudexpRemoveEntry]
  split
  · exact .refused s
  · split
    · exact .refused s
    · split
      · exact .refused s
      · rw [rtuFdRemoveEntry]
        generalize removed : slots.countP _ = n
        refine (validated_sweep (Int.natCast_nonneg n) _ _).mpr ?_
        intro ij _ e impossible
        cases impossible

private theorem validated_hpMask (args : Mem) : Validated s (rtudexpHpMask args s) := by
  simp only [rtudexpHpMask]
  split
  · split
    · exact .refused s
    · exact .inr (logs_rtuWr (inRange_access _) _ _)
  · split
    · exact .inr (.refl s)
    · exact .refused s

/-! ### Removal by port -/

/-- `rtudexp_clear_entries` lets a port number pass that is the number of ports. -/
def ClearInRange (args : Mem) (s : RtuState) : Prop :=
  (argAt args 0).toInt = 32 → s.halNportsLocal.val = 32 → rtuCheckType (argAt args 1) = 0 →
    ∀ ij ∈ slots, ¬((s.rtuHtab ij.1 ij.2).valid ≠ 0 ∧ (s.rtuHtab ij.1 ij.2).dynamic = argAt args 1)

private theorem validated_clearEntries (args : Mem) :
    Validated s (rtudexpClearEntries args s) ↔ ClearInRange args s := by
  have few := s.halNportsLocal.property
  have limit : halMaxPorts = 32 := rfl
  simp only [rtudexpClearEntries]
  split
  next outside =>
    refine iff_of_true (.refused s) ?_
    intro port nports
    omega
  next inside =>
    split
    next unknown => exact iff_of_true (.refused s) fun _ _ known => absurd known unknown
    next known =>
      -- the port selects a bit of the mask, which must have one for it
      rw [rtuFdClearEntriesForPort, validated_sweep (Int.le_refl 0)]
      constructor
      · intro all port _ _ ij slot found
        have range := all ij slot (.shift (argAt args 0).toInt) (by
          rw [if_pos found]
          exact List.mem_singleton_self _)
        simp only [InRange] at range
        omega
      · intro clear ij slot e member
        split at member
        next found =>
          obtain rfl := List.mem_singleton.mp member
          have small : (argAt args 0).toInt ≠ 32 := by
            intro port
            exact clear port (by omega) (not_not.mp known) ij slot found
          simp only [InRange]
          omega
        next => cases member

/-! ### VLAN entries -/

/-- `rtudexp_vlan_entry` checks nothing: neither the VID nor the number of ports in `PSR`, by
which the CPU port is added to the mask. -/
def VlanInRange (args : Mem) (s : RtuState) : Prop :=
  0 ≤ (argAt args 0).toInt ∧ (argAt args 0).toInt < numVlans ∧
    (argAt args 2 = 0 ∧ argAt args 3 = 1 ∨ (rtuPsrNPortsR s.fpga.psr).toNat < 32)

private theorem logs_rtuWriteVlanEntry (access : ∀ e : Event, ¬e.Ranged → p e) (vid : Int)
    (ent : RtuVlanTableEntry) : Logs p s (rtuWriteVlanEntry vid ent s) :=
  (logs_rtuWr access _ _).trans (logs_rtuWr access _ _)

private theorem vlanEntry_trace (vid : Int) (portMask : Word) (fid prio : Byte)
    (hasPrio prioOverride drop : Word) (tv : Word × Word) (s : RtuState) :
    ∃ es, (rtuFdCreateVlanEntry vid portMask fid prio hasPrio prioOverride drop tv s).trace =
      s.trace ++ (.index .vlanTab vid ::
        (if portMask = 0 ∧ drop = 1 then [] else [.shift (rtuPsrNPortsR s.fpga.psr).toNat]) ++ es) ∧
      ∀ e ∈ es, ¬e.Ranged := by
  simp only [rtuFdCreateVlanEntry]
  split
  · obtain ⟨es, trace, access⟩ := logs_rtuWriteVlanEntry (s := { s.emit (.index .vlanTab vid) with
      vlanTab := _ }) (fun _ access => access) vid _
    refine ⟨es, trace.trans ?_, access⟩
    simp [RtuState.emit]
  · obtain ⟨es, trace, access⟩ := logs_rtuWriteVlanEntry (s := { (s.emit (.index .vlanTab vid)).emit
      (.shift (rtuPsrNPortsR s.fpga.psr).toNat) with vlanTab := _ }) (fun _ access => access) vid _
    refine ⟨es, trace.trans ?_, access⟩
    simp [RtuState.emit]

private theorem validated_vlanEntry (args : Mem) (env : RtudEnv) :
    Validated s (rtudexpVlanEntry args env s) ↔ VlanInRange args s := by
  obtain ⟨es, trace, access⟩ := vlanEntry_trace (argAt args 0).toInt (argAt args 2)
    ((argAt args 1).setWidth 8) ((argAt args 4).setWidth 8) (argAt args 5) (argAt args 6)
    (argAt args 3) env.tv s
  simp only [rtudexpVlanEntry, VlanInRange]
  rw [validated_iff_ranged (Int.le_refl 0) trace access]
  by_cases cpu : argAt args 2 = 0 ∧ argAt args 3 = 1
  · simp [cpu, InRange]
  · rw [if_neg cpu, or_iff_right cpu]
    have bound : ((rtuPsrNPortsR s.fpga.psr).toNat : Int) < 32 ↔
        (rtuPsrNPortsR s.fpga.psr).toNat < 32 := by omega
    simp [InRange, bound, and_assoc]

/-! ### Mirroring -/

def MirrorRefused (args : Mem) : Prop :=
  argAt args 1 > 0x3ffff ∨ argAt args 2 > 0x3ffff ∨
    argAt args 0 = 1 ∧ (argAt args 3 < 1 ∨ argAt args 3 > 0x3ffff)

/-- The write of a mask shifts by 32, so `rtudexp_mirror` keeps the range only if it refuses the
request or has no mask to write. -/
def MirrorInRange (args : Mem) (s : RtuState) : Prop :=
  MirrorRefused args ∨ argAt args 0 ≠ 0 ∧
    (argAt args 1 = 0 ∧ argAt args 2 = 0 ∧ argAt args 3 = 0) ∧
    s.mirrorCfg.imask = 0 ∧ s.mirrorCfg.emask = 0 ∧ s.mirrorCfg.dmask = 0

/-- The accesses for one mask, if it is written. -/
def maskEvents (written : Prop) [Decidable written] (select mask : Word) : List Event :=
  if written then [.wr .rxMpR0 select, .shift 32, .wr .rxMpR1 (rtuRxMpR1MaskW mask)] else []

private theorem writeMirrorMask_eq (written : Prop) [Decidable written] (select mask : Word)
    (s : RtuState) :
    (if written then writeMirrorMask select mask s else s) =
      s.emitAll (maskEvents written select mask) := by
  rw [maskEvents]
  split <;> rfl

def mirrorEvents (cfg : RtuMirrorInfo) : List Event :=
  maskEvents (cfg.en = 0 ∨ cfg.dmask ≠ 0) 0 cfg.dmask ++
    (maskEvents (cfg.en = 0 ∨ cfg.imask ≠ 0) rtuRxMpR0DstSrc cfg.imask ++
      maskEvents (cfg.en = 0 ∨ cfg.emask ≠ 0) (rtuRxMpR0DstSrc ||| rtuRxMpR0RxTx) cfg.emask)

private theorem rtuCfgMirroring_eq (cfg : RtuMirrorInfo) (s : RtuState) :
    rtuCfgMirroring cfg s = s.emitAll (mirrorEvents cfg) := by
  rw [rtuCfgMirroring, writeMirrorMask_eq, writeMirrorMask_eq, writeMirrorMask_eq, mirrorEvents,
    emitAll_append, emitAll_append]

private theorem rtuEnableMirroring_eq (ena : Word) (s : RtuState) :
    ∃ ctr, rtuEnableMirroring ena s = s.emit (.wr .rxCtr ctr) := ⟨_, rfl⟩

private theorem maskEvents_inRange (nports : Int) (written : Prop) [Decidable written]
    (select mask : Word) :
    (∀ e ∈ maskEvents written select mask, InRange nports e) ↔ ¬written := by
  rw [maskEvents]
  split
  next yes => simp [InRange, yes]
  next no => simp [no]

/-- A mask stays zero only if it is zero in the request and was zero before. -/
theorem updatedMask_unwritten (en mask old : Word) :
    ¬(en = 0 ∨ (if en = 0 ∨ mask ≠ 0 then mask else old) ≠ 0) ↔ en ≠ 0 ∧ mask = 0 ∧ old = 0 := by
  by_cases disabled : en = 0#32
  · simp [disabled]
  · by_cases given : mask = 0#32
    · simp [disabled, given]
    · simp [disabled, given]

private theorem writeMirrorConfig_trace (en imask emask dmask : Word) (s : RtuState) :
    ∃ first last, (rtuFdWriteMirrorConfig en imask emask dmask s).trace = s.trace ++
      (.wr .rxCtr first ::
        (mirrorEvents (updatedMirrorCfg en imask emask dmask s.mirrorCfg) ++ [.wr .rxCtr last])) := by
  simp only [rtuFdWriteMirrorConfig]
  obtain ⟨first, disabled⟩ := rtuEnableMirroring_eq 0
    { s with mirrorCfg := updatedMirrorCfg en imask emask dmask s.mirrorCfg }
  rw [disabled, rtuCfgMirroring_eq]
  obtain ⟨last, enabled⟩ := rtuEnableMirroring_eq en (RtuState.emitAll (RtuState.emit
    { s with mirrorCfg := updatedMirrorCfg en imask emask dmask s.mirrorCfg }
      (.wr .rxCtr first)) (mirrorEvents (updatedMirrorCfg en imask emask dmask s.mirrorCfg)))
  refine ⟨first, last, ?_⟩
  rw [enabled]
  simp [RtuState.emit]

private theorem validated_writeMirrorConfig (en imask emask dmask : Word) :
    Validated s (0, rtuFdWriteMirrorConfig en imask emask dmask s) ↔
      en ≠ 0 ∧ (imask = 0 ∧ emask = 0 ∧ dmask = 0) ∧
        s.mirrorCfg.imask = 0 ∧ s.mirrorCfg.emask = 0 ∧ s.mirrorCfg.dmask = 0 := by
  obtain ⟨first, last, trace⟩ := writeMirrorConfig_trace en imask emask dmask s
  rw [validated_iff (Int.le_refl 0) trace, List.forall_mem_cons, List.forall_mem_append,
    List.forall_mem_singleton, mirrorEvents, List.forall_mem_append, List.forall_mem_append,
    maskEvents_inRange, maskEvents_inRange, maskEvents_inRange]
  simp only [updatedMirrorCfg, updatedMask_unwritten, InRange, true_and, and_true]
  tauto

private theorem validated_mirror (args : Mem) :
    Validated s (rtudexpMirror args s) ↔ MirrorInRange args s := by
  simp only [rtudexpMirror]
  split
  next refused => exact iff_of_true (.refused s) (.inl (.inl refused))
  next imask =>
    split
    next refused => exact iff_of_true (.refused s) (.inl (.inr (.inl refused)))
    next emask =>
      split
      next refused => exact iff_of_true (.refused s) (.inl (.inr (.inr refused)))
      next dmask =>
        rw [validated_writeMirrorConfig, MirrorInRange, or_iff_right]
        rintro (refused | refused | refused)
        · exact imask refused
        · exact emask refused
        · exact dmask refused

/-! ### Port configuration -/

def PortCfgFields (args : Mem) : Prop :=
  let qmode : Byte := (argAt args 2).setWidth 8
  let fixPrio : Byte := (argAt args 3).setWidth 8
  let untag : Byte := (argAt args 6).setWidth 8
  (qmode = qmodeAccess ∨ qmode = qmodeTrunk ∨ qmode = qmodeDisabled ∨ qmode = qmodeUnq) ∧
    (fixPrio = 0 ∨ fixPrio = 1) ∧ ¬(argAt args 4).setWidth 8 > portPrioMax ∧
    ¬(argAt args 5).setWidth 16 > portVidMax ∧ (untag = 0 ∨ untag = 1)

/-- `rtudexp_port_cfg` lets the number of ports pass as an index, which is in range of no table
unless another field is refused. -/
def PortCfgInRange (args : Mem) (s : RtuState) : Prop :=
  (((argAt args 0).setWidth 8).toNat : Int) = s.halNportsLocal.val → ¬PortCfgFields args

private theorem logs_rtuWritePortConfig (access : ∀ e : Event, ¬e.Ranged → p e)
    (hwIndex validMask qmode fixPrio prio : Byte) (pvid : BitVec 16) (untag : Byte)
    (config : p (.index .portsCfg hwIndex.toNat)) (endpoint : p (.index .endpoint hwIndex.toNat)) :
    Logs p (s.emit (.index .portsCfg hwIndex.toNat))
      (rtuWritePortConfig hwIndex validMask qmode fixPrio prio pvid untag s) := by
  simp only [rtuWritePortConfig]
  exact Logs.trans (Logs.of_trace rfl) (logs_rtuWritePortCfgHw access hwIndex config endpoint)

private theorem validated_writePortConfig (hwIndex validMask qmode fixPrio prio : Byte)
    (pvid : BitVec 16) (untag : Byte) (bound : hwIndex.toNat ≤ s.halNportsLocal.val) :
    Validated s (0, rtuWritePortConfig hwIndex validMask qmode fixPrio prio pvid untag s) ↔
      (hwIndex.toNat : Int) ≠ s.halNportsLocal.val := by
  have few := s.halNportsLocal.property
  constructor
  · intro validated last
    obtain ⟨es, trace, _⟩ := logs_rtuWritePortConfig (p := fun _ => True) (s := s)
      (fun _ _ => trivial) hwIndex validMask qmode fixPrio prio pvid untag trivial trivial
    -- the first thing the function does is to index the port table
    have first : (rtuWritePortConfig hwIndex validMask qmode fixPrio prio pvid untag s).trace =
        s.trace ++ (.index .portsCfg hwIndex.toNat :: es) := by
      rw [trace]
      simp [RtuState.emit]
    have range := (validated_iff (Int.le_refl 0) first).mp validated _ List.mem_cons_self
    simp only [InRange] at range
    omega
  · intro other
    have config : InRange s.halNportsLocal.val (.index .portsCfg hwIndex.toNat) :=
      ⟨Int.natCast_nonneg _, by omega, by omega⟩
    have endpoint : InRange s.halNportsLocal.val (.index .endpoint hwIndex.toNat) := config
    have rest := logs_rtuWritePortConfig (s := s) (inRange_access s.halNportsLocal.val) hwIndex
      validMask qmode fixPrio prio pvid untag config endpoint
    refine .inr ?_
    dsimp only
    exact Logs.trans (Logs.emit config) rest

private theorem validated_portCfg (args : Mem) :
    Validated s (rtudexpPortCfg args s) ↔ PortCfgInRange args s := by
  simp only [rtudexpPortCfg, PortCfgInRange, PortCfgFields]
  split
  next outside =>
    refine iff_of_true (.refused s) ?_
    intro last
    omega
  next inside =>
    split
    next refused => exact iff_of_true (.refused s) fun _ fields => refused fields.1
    next qmode =>
      split
      next refused => exact iff_of_true (.refused s) fun _ fields => refused fields.2.1
      next fixPrio =>
        split
        next refused => exact iff_of_true (.refused s) fun _ fields => fields.2.2.1 refused
        next prio =>
          split
          next refused => exact iff_of_true (.refused s) fun _ fields => fields.2.2.2.1 refused
          next pvid =>
            -- every check but the one of the port number is made
            split
            next refused => exact iff_of_true (.refused s) fun _ fields => refused fields.2.2.2.2
            next untag =>
              rw [validated_writePortConfig _ _ _ _ _ _ _ (Int.not_lt.mp inside)]
              constructor
              · exact fun other last => absurd last other
              · intro implies last
                exact implies last ⟨not_not.mp qmode, not_not.mp fixPrio, prio, pvid,
                  not_not.mp untag⟩

private theorem logs_rtuCleanPort (access : ∀ e : Event, ¬e.Ranged → p e) (epMac : Nat → Mac)
    (i : Nat) (config : p (.index .portsCfg (BitVec.ofNat 8 i).toNat))
    (endpoint : p (.index .endpoint (BitVec.ofNat 8 i).toNat)) :
    Logs p s (rtuCleanPort epMac s i) := by
  obtain ⟨es, trace, all⟩ := logs_rtuWritePortCfgHw (s := { s with
    portsCfg := Function.update s.portsCfg i
      { s.portsCfg i with qmode := qmodeUnq, fixPrio := 0, prio := 0, pvid := 0, untag := 0 } })
    access (BitVec.ofNat 8 i) config endpoint
  refine ⟨es, ?_, all⟩
  rw [rtuCleanPort]
  exact trace

/-- `rtu_clean_ports` loops over the ports there are. -/
theorem validated_portCfgClearAll (ret : Word) (env : RtudEnv) :
    Validated s (rtudexpPortCfgClearAll ret env s) := by
  have few := s.halNportsLocal.property
  have limit : halMaxPorts = 32 := rfl
  have turn : ∀ i ∈ List.range s.halNportsLocal.val.toNat, ∀ s',
      Logs (InRange s.halNportsLocal.val) s' (rtuCleanPort env.epMac s' i) := by
    intro i member s'
    have inside := List.mem_range.mp member
    -- the ports there are have numbers that fit the eight bits of `hw_index`
    have small : (BitVec.ofNat 8 i).toNat = i := by
      rw [BitVec.toNat_ofNat]
      omega
    have config : InRange s.halNportsLocal.val (.index .portsCfg (BitVec.ofNat 8 i).toNat) := by
      rw [small]
      exact ⟨Int.natCast_nonneg _, by omega, by omega⟩
    exact logs_rtuCleanPort (inRange_access _) env.epMac i config config
  refine .inr ?_
  simp only [rtudexpPortCfgClearAll, rtuCleanPorts]
  exact Logs.trans (Logs.of_trace rfl) (Logs.foldl _ _ turn)

/-! ### All handlers -/

/-- The requests that a handler refuses or carries out within all ranges. -/
def RequestInRange (e : RtudExport) (args : Mem) (s : RtuState) : Prop :=
  match e with
  | .clearEntries => ClearInRange args s
  | .vlanEntry => VlanInRange args s
  | .mirror => MirrorInRange args s
  | .portCfg => PortCfgInRange args s
  | .addEntry | .removeEntry | .learningProcess | .unrec | .hpMask | .portCfgClearAll => True

/-- Every handler does what a validating handler does exactly on the requests in range. -/
theorem exports_validated (e : RtudExport) (args : Mem) (ret : Word) (env : RtudEnv)
    (s : RtuState) :
    Validated s (rtudCall (rtudPd e) args ret env s) ↔ RequestInRange e args s := by
  cases e with
  | clearEntries => exact validated_clearEntries args
  | addEntry => exact iff_of_true (validated_addEntry (rtudPd .addEntry) args env) trivial
  | removeEntry => exact iff_of_true (validated_removeEntry (rtudPd .removeEntry) args) trivial
  | learningProcess => exact iff_of_true (validated_portFlags _ _ _ args) trivial
  | unrec => exact iff_of_true (validated_portFlags _ _ _ args) trivial
  | vlanEntry => exact validated_vlanEntry args env
  | hpMask => exact iff_of_true (validated_hpMask args) trivial
  | mirror => exact validated_mirror args
  | portCfg => exact validated_portCfg args
  | portCfgClearAll => exact iff_of_true (validated_portCfgClearAll ret env) trivial

/-- A `vlan_entry` request for VID 4096 writes behind the end of `vlan_tab`. -/
theorem exports_unvalidated :
    ¬Validated firstStartState (rtudCall (rtudPd .vlanEntry) (storeBits (4096 : Word)) 0
      ⟨0, (0, 0), fun _ => ⟨0, 0, 0, 0, 0, 0⟩⟩ firstStartState) := by
  intro validated
  have range := (validated_vlanEntry _ _).mp validated
  exact absurd range.2.1 (by decide)

end WrSwitch.Rtu
