import WrSwitch.Rtu.Refinement
import WrSwitch.Rtu.HwMirror
import WrSwitch.Rtu.ConfigRuns
import WrSwitch.Hal.Types

/-!
# Reserved addresses

`rtu_create_static_entries` of `rtud.c`, and why its entries keep their slots. They are the
first of their rows, and a removal moves only what lies above the slot it erases.
-/
namespace WrSwitch.Rtu

open Machine

/-! ### The static entries -/

/-- What the daemon reads of `struct hal_port_state`. -/
structure HalPortState where
  inUse : Bool
  hwIndex : Int
  state : Hal.PortState
deriving DecidableEq, Repr

def stateUp (ps : HalPortState) : Bool := decide (ps.state = .linkUp)

/-- The polynomials that the option `-p` names. -/
inductive HwPolynomial
  | ccitt | ibm | dect
deriving DecidableEq, Repr

def HwPolynomial.value : HwPolynomial → BitVec 16
  | .ccitt => 0x1021
  | .ibm => 0x8005
  | .dect => 0x0589

def bcastMac : Mac := ⟨0xff, 0xff, 0xff, 0xff, 0xff, 0xff⟩
/-- The calls up to the first that fails. `now` is the clock, by the entries still to come. -/
def createEntries (now : Nat → Word) : List (Mac × Word) → RtuState → Int × RtuState
  | [], s => (0, s)
  | (mac, portMask) :: es, s =>
    let (err, s) := rtuFdCreateEntry mac 0 portMask rtuEntryTypeStatic overrideExisting
      (now es.length) s
    if err ≠ 0 then (err, s) else createEntries now es s

/-- The database after `rtu_fd_init` and the creation of `es`, with these entries alone. -/
structure Created (hashPoly : Word) (es : List (Mac × Word)) (m : SwState) (f : Fpga) :
    Prop where
  idle : m.hwReqList = []
  poly : m.hashPoly = hashPoly
  registered : (m.vlanTab 0).drop = 0
  fid : (m.vlanTab 0).fid = 0
  housed : Housed hashPoly m.rtuHtab
  mirror : Mirror m.rtuHtab f
  held : ∀ e ∈ es, ∃ h b, m.rtuHtab.Valid h b ∧ keyOf (m.rtuHtab h b) = ⟨e.1, 0⟩ ∧
    bindingOf (m.rtuHtab h b) = ⟨e.2, rtuEntryTypeStatic⟩
  only : ∀ h b, m.rtuHtab.Valid h b → (m.rtuHtab h b).dynamic = rtuEntryTypeStatic ∧
    (m.rtuHtab h b).portMaskSrc = 0xFFFFFFFF ∧ ∃ e ∈ es, keyOf (m.rtuHtab h b) = ⟨e.1, 0⟩
  rows : ∀ h, htabCountBuckets m.rtuHtab h = es.countP fun e => rtuHash hashPoly e.1 0 = h

private theorem rtuWr_zbt {reg : RtuReg} (other : reg ≠ .mfifoR1) (val : Word) (s : RtuState) :
    (rtuWr reg val s).fpga.zbt = s.fpga.zbt := by
  cases reg with
  | mfifoR1 => exact absurd rfl other
  | vtr1 =>
    simp only [rtuWr, RtuState.emit, Fpga.apply]
    split <;> rfl
  | _ => rfl

@[simp] theorem epWrite_zbt (ep : Nat) (reg : EpReg) (val : Word) (s : RtuState) :
    (epWrite ep reg val s).fpga.zbt = s.fpga.zbt := by
  cases reg <;> rfl

private theorem foldl_zbt {β : Type} (body : RtuState → β → RtuState)
    (turn : ∀ s b, (body s b).fpga.zbt = s.fpga.zbt) (s : RtuState) (bs : List β) :
    (bs.foldl body s).fpga.zbt = s.fpga.zbt :=
  run_preserves (fun s' => s'.fpga.zbt = s.fpga.zbt) body
    (fun s' b same => (turn s' b).trans same) s bs rfl

private theorem rtuWriteVlanEntry_zbt (vid : Int) (ent : RtuVlanTableEntry) (s : RtuState) :
    (rtuWriteVlanEntry vid ent s).fpga.zbt = s.fpga.zbt := by
  simp (disch := decide) only [rtuWriteVlanEntry, rtuWr_zbt]

private theorem rtuFdCreateVlanEntry_zbt (vid : Int) (portMask : Word) (fid prio : Byte)
    (hasPrio prioOverride drop : Word) (tv : Word × Word) (s : RtuState) :
    (rtuFdCreateVlanEntry vid portMask fid prio hasPrio prioOverride drop tv s).fpga.zbt =
      s.fpga.zbt := by
  unfold rtuFdCreateVlanEntry
  dsimp only
  refine (rtuWriteVlanEntry_zbt _ _ _).trans ?_
  dsimp only
  split <;> rfl

private theorem rtuCfgMirroring_zbt (cfg : RtuMirrorInfo) (s : RtuState) :
    (rtuCfgMirroring cfg s).fpga.zbt = s.fpga.zbt := by
  have written (select mask : Word) (s : RtuState) :
      (writeMirrorMask select mask s).fpga.zbt = s.fpga.zbt := rfl
  have optional (c : Prop) [Decidable c] (select mask : Word) (s : RtuState) :
      (if c then writeMirrorMask select mask s else s).fpga.zbt = s.fpga.zbt := by
    split
    next => exact written select mask s
    next => rfl
  rw [rtuCfgMirroring, optional, optional, optional]

private theorem rtuWritePortCfgHw_zbt (hwIndex : Byte) (s : RtuState) :
    (rtuWritePortCfgHw hwIndex s).fpga.zbt = s.fpga.zbt := by
  rw [rtuWritePortCfgHw_eq]
  refine (foldl_zbt (fun s' i => epWrite hwIndex.toNat .vcr1
    (vcr1Word (s.portsCfg hwIndex.toNat).untag i) s') ?_ _ _).trans rfl
  intro s' i
  exact epWrite_zbt _ _ _ s'

private theorem rtuCleanPort_zbt (epMac : Nat → Mac) (s : RtuState) (hwIndex : Nat) :
    (rtuCleanPort epMac s hwIndex).fpga.zbt = s.fpga.zbt :=
  rtuWritePortCfgHw_zbt (BitVec.ofNat 8 hwIndex) { s with
    portsCfg := Function.update s.portsCfg hwIndex
      { s.portsCfg hwIndex with qmode := qmodeUnq, fixPrio := 0, prio := 0, pvid := 0, untag := 0 } }

private theorem rtuCleanPorts_zbt (epMac : Nat → Mac) (s : RtuState) :
    (rtuCleanPorts epMac s).fpga.zbt = s.fpga.zbt := by
  unfold rtuCleanPorts
  dsimp only
  exact (foldl_zbt (rtuCleanPort epMac) (rtuCleanPort_zbt epMac) _ _).trans rfl

private theorem rtuWritePortConfig_zbt (hwIndex validMask qmode fixPrio prio : Byte)
    (pvid : BitVec 16) (untag : Byte) (s : RtuState) :
    (rtuWritePortConfig hwIndex validMask qmode fixPrio prio pvid untag s).fpga.zbt =
      s.fpga.zbt := by
  unfold rtuWritePortConfig
  dsimp only
  exact (rtuWritePortCfgHw_zbt _ _).trans rfl

/-- The configuration does not write to the hardware's table. -/
theorem configStep_zbt (s : RtuState) (r : ConfigRequest) :
    (configStep s r).fpga.zbt = s.fpga.zbt := by
  cases r with
  | vlanEntry args env =>
    rw [configStep, rtudexpVlanEntry]
    exact rtuFdCreateVlanEntry_zbt _ _ _ _ _ _ _ _ _
  | mirror args =>
    by_cases accepted : MirrorAccepted args
    · rw [configStep, rtudexpMirror_accepted accepted]
      exact rtuCfgMirroring_zbt _ _
    · rw [configStep, rtudexpMirror_refused accepted]
  | portCfg args =>
    -- each test of the port refuses without writing
    have refused (c : Prop) [Decidable c] (r : Int × RtuState)
        (same : r.2.fpga.zbt = s.fpga.zbt) :
        (if c then (-1, s) else r).2.fpga.zbt = s.fpga.zbt := by
      split
      next => rfl
      next => exact same
    rw [configStep, rtudexpPortCfg]
    iterate 6 apply refused
    dsimp only
    rw [rtuWritePortConfig_zbt]
  | portCfgClearAll ret env =>
    rw [configStep, rtudexpPortCfgClearAll]
    dsimp only
    rw [rtuCleanPorts_zbt]

/-- The mirror depends on the memory of the table only. -/
theorem Mirror.congr {t : Htab} {f f' : Fpga} (mirror : Mirror t f) (zbt : f'.zbt = f.zbt) :
    Mirror t f' := by
  intro h row b column
  rw [← mirror h row b column, zbtWords, zbtWords, zbt]

/-- The table gains one entry in one row. -/
theorem htabCountBuckets_insert {t : Htab} (packed : Packed t) {eaddr : RtuAddr}
    {ent : RtuFilteringEntry} (filled : ent.valid ≠ 0)
    (first : eaddr.bucket = htabCountBuckets t eaddr.hash)
    (packed' : Packed (t.set eaddr.hash eaddr.bucket ent)) (h : Nat) :
    htabCountBuckets (t.set eaddr.hash eaddr.bucket ent) h =
      htabCountBuckets t h + if eaddr.hash = h then 1 else 0 := by
  -- both counts are settled by which slots are filled
  have slot (b : Nat) : b < htabCountBuckets (t.set eaddr.hash eaddr.bucket ent) h ↔
      (h = eaddr.hash ∧ b = eaddr.bucket) ∨ b < htabCountBuckets t h := by
    rw [← packed'.valid_iff, ← packed.valid_iff]
    by_cases here : h = eaddr.hash ∧ b = eaddr.bucket
    · obtain ⟨rfl, rfl⟩ := here
      rw [Htab.Valid, set_self]
      exact iff_of_true filled (.inl ⟨rfl, rfl⟩)
    · rw [Htab.Valid, set_other ent here]
      simp [here, Htab.Valid]
  have below := slot (htabCountBuckets t h)
  have above := slot (htabCountBuckets t h + 1)
  have last := slot (htabCountBuckets (t.set eaddr.hash eaddr.bucket ent) h)
  by_cases row : eaddr.hash = h
  · subst row
    rw [if_pos rfl]
    omega
  · rw [if_neg row]
    have other : h ≠ eaddr.hash := Ne.symm row
    simp only [other, false_and, false_or] at below last
    omega

/-- A static entry for a new address whose row has room. -/
theorem Created.create {hashPoly : Word} {es : List (Mac × Word)} {s : RtuState}
    (created : Created hashPoly es s.toSwState s.fpga) (mac : Mac) (portMask now : Word)
    (fresh : ∀ e ∈ es, e.1 ≠ mac)
    (room : es.countP (fun e => rtuHash hashPoly e.1 0 = rtuHash hashPoly mac 0) < rtuBuckets) :
    let r := rtuFdCreateEntry mac 0 portMask rtuEntryTypeStatic overrideExisting now s
    r.1 = 0 ∧ Created hashPoly (es ++ [(mac, portMask)]) r.2.toSwState r.2.fpga := by
  obtain ⟨idle, poly, registered, fid, housed, mirror, held, only, rows⟩ := created
  subst poly
  have absent : htabSearch s.rtuHtab mac 0 = none := by
    cases search : htabSearch s.rtuHtab mac 0 with
    | none => rfl
    | some ij =>
      obtain ⟨_, occupied, sameMac, _⟩ := htabSearch_some search
      obtain ⟨_, _, e, listed, key⟩ := only ij.1 ij.2 occupied
      exact absurd ((congrArg Key.mac key).symm.trans sameMac) (fresh e listed)
  rw [← rows] at room
  generalize place : (⟨rtuHash s.hashPoly mac 0,
    htabCountBuckets s.rtuHtab (rtuHash s.hashPoly mac 0)⟩ : RtuAddr) = eaddr
  have plan : createPlan s.toSwState mac 0 portMask rtuEntryTypeStatic overrideExisting =
      .insert eaddr := by
    have vid : (BitVec.toNat (0 : BitVec 16) : Int) = 0 := rfl
    unfold createPlan
    simp only [vid, registered, fid, if_true, absent, if_neg (Nat.ne_of_lt room), place]
  have own : OwnAddrPlan s.toSwState
      (createPlan s.toSwState mac 0 portMask rtuEntryTypeStatic overrideExisting) := by
    rw [plan]
    trivial
  have table : createHtab s.toSwState mac 0 portMask rtuEntryTypeStatic overrideExisting now =
      insertedHtab s.rtuHtab mac 0 eaddr portMask rtuEntryTypeStatic now := by
    rw [createHtab, plan]
    exact congrArg (insertedHtab s.rtuHtab mac · eaddr portMask rtuEntryTypeStatic now) fid
  have housed' := housed.create mac 0 portMask rtuEntryTypeStatic overrideExisting now
  have mirror' := mirror.create now own
  intro r
  have made : r = _ :=
    rtuFdCreateEntry_eq mac 0 portMask rtuEntryTypeStatic overrideExisting now s idle
  rw [table] at housed' mirror' made
  rw [made]
  refine ⟨if_neg (by rw [plan]; simp), ?_⟩
  rw [emitAll_toSwState, emitAll_fpga]
  -- the new entry, and the others where they were
  have first : eaddr.bucket = htabCountBuckets s.rtuHtab eaddr.hash := by rw [← place]
  have row : eaddr.hash = rtuHash s.hashPoly mac 0 := by rw [← place]
  unfold insertedHtab at housed' mirror' ⊢
  generalize new : ({ s.rtuHtab eaddr.hash eaddr.bucket with
    addr := eaddr, valid := 1, fid := 0, portMaskDst := portMask, portMaskSrc := 0xFFFFFFFF,
    dynamic := rtuEntryTypeStatic, lastAccessT := now, mac := mac } : RtuFilteringEntry) = ent
    at housed' mirror' ⊢
  have filled : ent.valid ≠ 0 := by
    have one : (1 : Word) ≠ 0 := by decide
    rw [← new]
    exact one
  have other {h b : Nat} (occupied : s.rtuHtab.Valid h b) :
      ¬(h = eaddr.hash ∧ b = eaddr.bucket) := by
    rintro ⟨rfl, rfl⟩
    exact absurd ((housed.valid_iff _ _).mp occupied) (by omega)
  refine ⟨idle, rfl, registered, fid, housed', mirror', ?_, ?_, ?_⟩
  · intro e listed
    rcases List.mem_append.mp listed with old | last
    · obtain ⟨h, b, occupied, found⟩ := held e old
      refine ⟨h, b, ?_⟩
      rw [Htab.Valid]
      dsimp only
      rw [set_other ent (other occupied)]
      exact ⟨occupied, found⟩
    · obtain rfl := List.mem_singleton.mp last
      refine ⟨eaddr.hash, eaddr.bucket, ?_⟩
      rw [Htab.Valid]
      dsimp only
      rw [set_self]
      refine ⟨filled, ?_⟩
      rw [← new]
      exact ⟨rfl, rfl⟩
  · intro h b occupied
    by_cases here : h = eaddr.hash ∧ b = eaddr.bucket
    · obtain ⟨rfl, rfl⟩ := here
      dsimp only
      rw [set_self, ← new]
      exact ⟨rfl, rfl, (mac, portMask), by simp, rfl⟩
    · rw [Htab.Valid] at occupied
      dsimp only at occupied ⊢
      rw [set_other ent here] at occupied ⊢
      obtain ⟨static, source, e, listed, key⟩ := only h b occupied
      exact ⟨static, source, e, List.mem_append_left _ listed, key⟩
  · intro h
    dsimp only
    rw [htabCountBuckets_insert housed.toPacked filled first housed'.toPacked, rows h,
      List.countP_append, List.countP_singleton, row]
    simp

/-- The calls all succeed, as long as the addresses differ and fit into their rows. -/
theorem Created.entries {hashPoly : Word} (now : Nat → Word) (es : List (Mac × Word)) :
    ∀ (done : List (Mac × Word)) (s : RtuState), Created hashPoly done s.toSwState s.fpga →
      ((done ++ es).map Prod.fst).Nodup →
      (∀ mac ∈ (done ++ es).map Prod.fst, ((done ++ es).map Prod.fst).countP (fun mac' =>
        rtuHash hashPoly mac' 0 = rtuHash hashPoly mac 0) ≤ rtuBuckets) →
      (createEntries now es s).1 = 0 ∧
        Created hashPoly (done ++ es) (createEntries now es s).2.toSwState
          (createEntries now es s).2.fpga := by
  induction es with
  | nil =>
    intro done s created _ _
    rw [List.append_nil]
    exact ⟨rfl, created⟩
  | cons e es ih =>
    intro done s created distinct rows
    obtain ⟨mac, portMask⟩ := e
    have fresh : ∀ e ∈ done, e.1 ≠ mac := by
      intro e listed same
      rw [List.map_append, List.map_cons, List.nodup_append'] at distinct
      exact distinct.2.2 (List.mem_map_of_mem listed) (by rw [same]; exact List.mem_cons_self)
    -- the row of the address holds those of the list that hash to it, and this one is not in yet
    have room : done.countP (fun e => rtuHash hashPoly e.1 0 = rtuHash hashPoly mac 0) <
        rtuBuckets := by
      have row := rows mac (by simp)
      rw [List.map_append, List.map_cons, List.countP_append, List.countP_cons, List.countP_map]
        at row
      simp only [decide_true, if_true] at row
      simp only [Function.comp_def] at row
      omega
    obtain ⟨succeeded, created⟩ := created.create mac portMask (now es.length) fresh room
    rw [List.append_cons] at distinct rows ⊢
    unfold createEntries
    simp only [succeeded]
    exact ih _ _ created distinct rows

end WrSwitch.Rtu
