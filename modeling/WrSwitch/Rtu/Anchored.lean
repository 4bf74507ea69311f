import WrSwitch.Rtu.StaticEntries
import WrSwitch.Rtu.Aging

/-!
# Entries that stay in their slots

The static entries of the start lie below all others of their rows. Whatever the compaction
of a row does to those, it is only ever asked to erase a slot above the static ones.
-/
namespace WrSwitch.Rtu

open Machine

/-- The operation neither removes a static entry of a reserved address nor stores over it: it is for
dynamic entries, for another address, or for another port mask. -/
def FdOp.Spares (reserved : List (Mac × Word)) : FdOp → Prop
  | .create mac _ _ dynamic atExistingEntry _ =>
    dynamic = rtuEntryTypeDynamic ∧ atExistingEntry = overrideExistingDynamic ∨
      mac ∉ reserved.map Prod.fst
  | .remove mac portMask type => type ≠ rtuEntryTypeStatic ∨ (mac, portMask) ∉ reserved
  | .clear destPort type => type ≠ rtuEntryTypeStatic ∨ portBit destPort ∉ reserved.map Prod.snd
  | .flush .. => True

/-- A table of static entries for reserved addresses. -/
structure Foundation (reserved : List (Mac × Word)) (base : Htab) : Prop where
  packed : Packed base
  static : ∀ h b, base.Valid h b → (base h b).dynamic = rtuEntryTypeStatic
  listed : ∀ h b, base.Valid h b → ((base h b).mac, (base h b).portMaskDst) ∈ reserved

/-- The entries of `base` are in their slots of the table and of the hardware, and no other
entry claims such a slot or such a key. -/
structure Anchored (base t : Htab) (f : Fpga) : Prop where
  packed : Packed t
  kept : ∀ h b, base.Valid h b → t h b = base h b
  above : ∀ h b, t.Valid h b → ¬base.Valid h b → ¬base.Valid h (t h b).addr.bucket ∧
    ∀ h' b', base.Valid h' b' → keyOf (t h b) ≠ keyOf (base h' b')
  words : ∀ h b, base.Valid h b → zbtWords f (toMemAddr ⟨h, b⟩) = macEntryWords (base h b)

variable {reserved : List (Mac × Word)} {base t : Htab} {f : Fpga}

/-! ### Removals -/

/-- What is left in a row was in it before, no lower. -/
theorem erase_source (packed : Packed t) {addr : RtuAddr} {h b : Nat}
    (occupied : (t.erase addr).Valid h b) :
    ∃ c, b ≤ c ∧ t.Valid h c ∧ t.erase addr h b = t h c := by
  by_cases other : h = addr.hash
  · subst other
    by_cases above : addr.bucket + 1 < htabCountBuckets t addr.hash
    · rw [Htab.Valid, erase_shift above] at occupied
      rw [erase_shift above]
      split at occupied
      -- a shifted entry comes from the bucket behind
      next moved =>
        rw [if_pos moved]
        exact ⟨b + 1, b.le_succ, (packed.valid_iff _ _).mpr moved.2, rfl⟩
      next still =>
        rw [if_neg still]
        exact ⟨b, le_rfl, occupied, rfl⟩
    · rw [erase_last (by omega)] at occupied ⊢
      by_cases here : b = addr.bucket
      · subst here
        exact absurd occupied (not_valid_zero (set_self t _ _ _))
      · have apart : ¬(addr.hash = addr.hash ∧ b = addr.bucket) := fun both => here both.2
        rw [Htab.Valid, set_other _ apart] at occupied
        exact ⟨b, le_rfl, occupied, set_other _ apart⟩
  · rw [Htab.Valid, erase_other other] at occupied
    exact ⟨b, le_rfl, occupied, erase_other other b⟩

/-- Erasing another entry leaves the foundation where it is. -/
theorem Anchored.erase (anchored : Anchored base t f) (packed : Packed base) {addr : RtuAddr}
    (row : addr.hash < htabEntries) (free : ¬base.Valid addr.hash addr.bucket) :
    Anchored base (t.erase addr)
      ((rowEvents (t.erase addr) addr.hash (htabCountBuckets t addr.hash)).foldl Fpga.apply f) := by
  -- the rows of the foundation have no gaps, so it lies below the erased bucket
  have lower {h b c : Nat} (below : b ≤ c) (occupied : base.Valid h c) : base.Valid h b :=
    (packed.down h).down below (packed.inside h c occupied).2 occupied
  have fixed {h b : Nat} (occupied : base.Valid h b) : t.erase addr h b = base h b := by
    refine (erase_below ?_).trans (anchored.kept h b occupied)
    rintro rfl
    by_contra reached
    exact free (lower (Nat.le_of_not_lt reached) occupied)
  refine ⟨anchored.packed.erase addr, fun h b => fixed, ?_, ?_⟩
  · intro h b occupied other
    obtain ⟨c, higher, before, same⟩ := erase_source anchored.packed occupied
    rw [same]
    exact anchored.above h c before fun held => other (lower higher held)
  · intro h b occupied
    obtain ⟨inside, column⟩ := packed.inside h b occupied
    unfold rowEvents
    rw [rowBursts_zbtWords _ row _ _ (htabCountBuckets_le t addr.hash) f inside column]
    split
    next => rw [fixed occupied]
    next => exact anchored.words h b occupied

/-- Removals of other entries leave the foundation where it is. -/
theorem Anchored.commit (packed : Packed base) (reqs : List HwReq) :
    ∀ {t : Htab} {f : Fpga}, Anchored base t f →
      (∀ req ∈ reqs, req.type = .remove ∧ req.addr.hash < htabEntries ∧
        ¬base.Valid req.addr.hash req.addr.bucket) →
      Anchored base (commitHtab t reqs) ((commitEvents t reqs).foldl Fpga.apply f) := by
  induction reqs with
  | nil => exact fun anchored _ => anchored
  | cons req reqs ih =>
    intro t f anchored removals
    obtain ⟨type, row, free⟩ := removals req List.mem_cons_self
    have table : commitReq t req = t.erase req.addr := by
      unfold commitReq
      rw [type]
    -- a request to remove rewrites the row it shifts
    have events : commitReqEvents t req =
        rowEvents (t.erase req.addr) req.addr.hash (htabCountBuckets t req.addr.hash) := by
      unfold commitReqEvents
      rw [type]
    unfold commitHtab commitEvents
    rw [List.foldl_cons, List.foldl_append, table, events]
    exact ih (anchored.erase packed row free)
      fun req listed => removals req (List.mem_cons_of_mem _ listed)

/-- The foundation does not move by writes to other registers. -/
theorem Anchored.silent (anchored : Anchored base t f) {es : List Event}
    (silent : ∀ e ∈ es, Silent e) : Anchored base t (es.foldl Fpga.apply f) := by
  refine { anchored with words := ?_ }
  intro h b occupied
  rw [zbtWords_silent es silent]
  exact anchored.words h b occupied

/-- A sweep that dooms no entry of the base. -/
theorem Anchored.sweep (anchored : Anchored base t f) (packed : Packed base)
    {logged : RtuFilteringEntry → List Event} {doomed : RtuFilteringEntry → Bool}
    (silent : ∀ ent, ∀ e ∈ logged ent, Silent e)
    (occupied : ∀ ent, doomed ent = true → ent.valid ≠ 0)
    (spared : ∀ h b, base.Valid h b → doomed (base h b) ≠ true) :
    Anchored base (sweptHtab t doomed) ((sweepEvents t logged doomed).foldl Fpga.apply f) := by
  unfold sweptHtab sweepEvents
  rw [List.foldl_append]
  apply Anchored.commit packed
  · -- what is logged while the rows are searched writes no entry
    apply anchored.silent
    intro e mem
    obtain ⟨ij, _, logs⟩ := List.mem_flatMap.mp mem
    exact silent _ e logs
  · intro req mem
    obtain ⟨ij, listed, rfl⟩ := List.mem_map.mp mem
    have chosen := (List.mem_filter.mp listed).2
    have held := occupied _ chosen
    have own := (anchored.packed.row ij.1 ij.2 held).1
    -- a doomed slot is not of the foundation, so its request writes past it
    have other : ¬base.Valid ij.1 ij.2 := by
      intro still
      rw [anchored.kept _ _ still] at chosen
      exact spared _ _ still chosen
    refine ⟨rfl, ?_, ?_⟩
    · dsimp only
      rw [own]
      exact (anchored.packed.inside ij.1 ij.2 held).1
    · dsimp only
      rw [own]
      exact (anchored.above ij.1 ij.2 held other).1

/-! ### The other operations -/

/-- Changes of the data of other entries. -/
theorem Anchored.data (anchored : Anchored base t f) {t' : Htab} (same : SameKeys t t')
    (fixed : ∀ h b, base.Valid h b → t' h b = t h b) : Anchored base t' f := by
  refine ⟨anchored.packed.congr same, ?_, ?_, anchored.words⟩
  · intro h b occupied
    rw [fixed h b occupied, anchored.kept h b occupied]
  · intro h b occupied other
    have found := anchored.above h b ((same.valid_iff h b).mp occupied) other
    rw [keyOf, same.mac, same.fid, same.addr]
    exact found

/-- A burst at a slot that is not one of the base. -/
theorem Anchored.burst (anchored : Anchored base t f) (packed : Packed base) {addr : RtuAddr}
    (row : addr.hash < htabEntries) (column : addr.bucket < rtuBuckets)
    (free : ¬base.Valid addr.hash addr.bucket) (ent : RtuFilteringEntry) :
    Anchored base t ((burstEvents (toMemAddr addr) (macEntryWords ent) true).foldl
      Fpga.apply f) := by
  refine { anchored with words := ?_ }
  intro h b occupied
  obtain ⟨inside, bound⟩ := packed.inside h b occupied
  have apart : ¬(h = addr.hash ∧ b = addr.bucket) := by
    rintro ⟨rfl, rfl⟩
    exact free occupied
  have slot := zbtWords_slot f inside bound row column ent true
  rw [if_neg apart] at slot
  exact slot.trans (anchored.words h b occupied)

/-- Creating an entry leaves the foundation where it is. -/
theorem Anchored.create {m : SwState} (anchored : Anchored base m.rtuHtab f)
    (foundation : Foundation reserved base) {mac : Mac} {vid : BitVec 16}
    {portMask dynamic : Word} {atExistingEntry : Int} {now : Word}
    (spares : (FdOp.create mac vid portMask dynamic atExistingEntry now).Spares reserved) :
    Anchored base (createHtab m mac vid portMask dynamic atExistingEntry now)
      ((createEvents m mac vid portMask dynamic atExistingEntry now).foldl Fpga.apply f) := by
  have packed := foundation.packed
  unfold createEvents createHtab
  rw [List.foldl_cons]
  cases plan : createPlan m mac vid portMask dynamic atExistingEntry with
  | keep => exact anchored
  | full => exact anchored
  | update i j =>
    obtain ⟨_, found, opened, _⟩ := createPlan_update plan
    obtain ⟨⟨row, _⟩, occupied, sameMac, _⟩ := htabSearch_some found
    -- a static entry of a reserved address is not updated
    have other : ¬base.Valid i j := by
      intro held
      have same := anchored.kept i j held
      rcases spares with ⟨dynamicNow, override⟩ | unlisted
      · rw [same, foundation.static i j held] at opened
        exact opened ⟨override, rfl, dynamicNow⟩
      · rw [← sameMac, same] at unlisted
        exact unlisted (List.mem_map_of_mem (foundation.listed i j held))
    obtain ⟨hash, bucket⟩ := anchored.packed.row i j occupied
    have free : ¬base.Valid (m.rtuHtab i j).addr.hash (m.rtuHtab i j).addr.bucket := by
      rw [hash]
      exact (anchored.above i j occupied other).1
    dsimp only
    apply Anchored.burst _ packed (hash.symm ▸ row) bucket free
    apply anchored.data (updatedHtab_sameKeys occupied _ _ _ _)
    intro h b held
    refine set_other _ ?_
    rintro ⟨rfl, rfl⟩
    exact other held
  | insert eaddr =>
    obtain ⟨_, absent, hash, first, room⟩ := createPlan_insert plan
    have row : eaddr.hash < htabEntries := hash ▸ rtuHash_lt _ _ _
    have column : eaddr.bucket < rtuBuckets := by
      have le := htabCountBuckets_le m.rtuHtab eaddr.hash
      omega
    have free : ¬base.Valid eaddr.hash eaddr.bucket := by
      intro held
      have occupied : m.rtuHtab.Valid eaddr.hash eaddr.bucket := by
        rw [Htab.Valid, anchored.kept _ _ held]
        exact held
      have below := (anchored.packed.valid_iff _ _).mp occupied
      omega
    have packed' := anchored.packed.create mac vid portMask dynamic atExistingEntry now
    unfold createHtab at packed'
    rw [plan] at packed'
    dsimp only at packed' ⊢
    apply Anchored.burst _ packed row column free
    refine ⟨packed', ?_, ?_, anchored.words⟩
    · intro h b held
      refine (set_other _ ?_).trans (anchored.kept h b held)
      rintro ⟨rfl, rfl⟩
      exact free held
    · intro h b occupied other
      by_cases here : h = eaddr.hash ∧ b = eaddr.bucket
      · obtain ⟨rfl, rfl⟩ := here
        unfold insertedHtab
        rw [set_self]
        refine ⟨free, ?_⟩
        intro h' b' held same
        have occupied' : m.rtuHtab.Valid h' b' := by
          rw [Htab.Valid, anchored.kept _ _ held]
          exact held
        obtain ⟨row', column'⟩ := packed.inside h' b' held
        refine htabSearch_none absent row' column' occupied' ?_
        rw [anchored.kept h' b' held]
        exact ⟨(congrArg Key.mac same).symm, (congrArg Key.fid same).symm⟩
      · unfold insertedHtab at occupied ⊢
        rw [Htab.Valid, set_other _ here] at occupied
        rw [set_other _ here]
        exact anchored.above h b occupied other

/-- The aging update leaves static entries as they are. -/
theorem Anchored.aged (anchored : Anchored base t f) (foundation : Foundation reserved base)
    (bitmap : Nat → Word) (now : Word) : Anchored base (agedHtab bitmap now t) f := by
  apply anchored.data (agedHtab_sameKeys bitmap now t)
  intro h b held
  have static : (t h b).dynamic = rtuEntryTypeStatic := by
    rw [anchored.kept h b held]
    exact foundation.static h b held
  unfold agedHtab agedEntry ageTouch
  rw [if_pos static, ite_self]

/-- An operation that spares the foundation leaves it where it is. -/
theorem Anchored.step {m : SwState} (anchored : Anchored base m.rtuHtab f)
    (foundation : Foundation reserved base) {op : FdOp} (spares : op.Spares reserved) :
    Anchored base (fdHtab m op) ((fdEvents m op).foldl Fpga.apply f) := by
  have mute (ent : RtuFilteringEntry) : ∀ e ∈ ([] : List Event), Silent e := by
    intro e impossible
    cases impossible
  cases op with
  | create mac vid portMask dynamic atExistingEntry now => exact anchored.create foundation spares
  | remove mac portMask type =>
    refine anchored.sweep foundation.packed mute (fdDoomed_valid m (.remove mac portMask type)) ?_
    intro h b held chosen
    obtain ⟨_, sameType, sameMac, sameMask⟩ := of_decide_eq_true chosen
    -- an entry of the foundation is hit by its type, its address and its mask only
    rcases spares with kind | unlisted
    · exact kind (sameType.symm.trans (foundation.static h b held))
    · exact unlisted (sameMac ▸ sameMask ▸ foundation.listed h b held)
  | clear destPort type =>
    refine anchored.sweep foundation.packed ?_ (fdDoomed_valid m (.clear destPort type)) ?_
    · intro ent e mem
      split at mem
      · obtain rfl := List.mem_singleton.mp mem
        exact fun _ => rfl
      · cases mem
    · intro h b held chosen
      obtain ⟨_, sameType, sameMask⟩ := of_decide_eq_true chosen
      rcases spares with kind | unlisted
      · exact kind (sameType.symm.trans (foundation.static h b held))
      · exact unlisted (sameMask ▸ List.mem_map_of_mem (foundation.listed h b held))
  | flush bitmap t₁ t₂ =>
    unfold fdEvents
    rw [List.foldl_append]
    refine Anchored.sweep ((anchored.aged foundation bitmap t₁).silent ?_) foundation.packed mute
      (fdDoomed_valid m (.flush bitmap t₁ t₂)) ?_
    · intro e mem
      obtain ⟨i, _, cleared⟩ := List.mem_flatMap.mp mem
      obtain rfl := List.mem_singleton.mp cleared
      exact fun _ => rfl
    · intro h b held chosen
      -- aging removes dynamic entries only
      have dynamic := (of_decide_eq_true chosen).2.1
      rw [foundation.static h b held] at dynamic
      exact static_ne_dynamic dynamic

/-! ### Searches -/

/-- A search for the key of an entry of the base ends in its slot. -/
theorem Anchored.search {hashPoly : Word} (anchored : Anchored base t f)
    (housed : Housed hashPoly base) {h b : Nat} (held : base.Valid h b) :
    htabSearch t (base h b).mac (base h b).fid = some (h, b) := by
  have occupied : t.Valid h b := by
    rw [Htab.Valid, anchored.kept h b held]
    exact held
  obtain ⟨row, column⟩ := housed.inside h b held
  cases search : htabSearch t (base h b).mac (base h b).fid with
  | none =>
    have absent := htabSearch_none search row column occupied
    rw [anchored.kept h b held] at absent
    exact absurd ⟨rfl, rfl⟩ absent
  | some ij =>
    obtain ⟨i, j⟩ := ij
    obtain ⟨_, found, sameMac, sameFid⟩ := htabSearch_some search
    have key : keyOf (t i j) = keyOf (base h b) := congrArg₂ Key.mk sameMac sameFid
    -- another hit would have the key of a foundation entry, which no later entry has
    by_cases same : base.Valid i j
    · rw [anchored.kept i j same] at key
      obtain ⟨rfl, rfl⟩ := housed.slot_unique same held key
      rfl
    · exact absurd key ((anchored.above i j found same).2 h b held)

/-! ### Runs -/

/-- What happens to the tables between two starts. -/
def RtudOp.Spares (reserved : List (Mac × Word)) : RtudOp → Prop
  | .fd op => op.Spares reserved
  | .config _ _ => True

private theorem Anchored.rtud {s : RtuState} (anchored : Anchored base s.rtuHtab s.fpga)
    (foundation : Foundation reserved base) (idle : s.hwReqList = []) {op : RtudOp}
    (spares : op.Spares reserved) :
    (rtudStep s op).hwReqList = [] ∧
      Anchored base (rtudStep s op).rtuHtab (rtudStep s op).fpga := by
  cases op with
  | fd op =>
    rw [rtudStep, fdStep_eq s op idle, emitAll_toSwState, emitAll_fpga]
    exact ⟨idle, anchored.step foundation spares⟩
  | config r inside =>
    obtain ⟨htab, reqs⟩ := configStep_database s r inside
    rw [rtudStep, htab, reqs]
    refine ⟨idle, { anchored with words := ?_ }⟩
    intro h b held
    rw [← anchored.words h b held, zbtWords, zbtWords, configStep_zbt]

/-- Every run of such operations leaves the foundation where it is. -/
theorem Anchored.run {s : RtuState} (anchored : Anchored base s.rtuHtab s.fpga)
    (foundation : Foundation reserved base) (idle : s.hwReqList = []) (ops : List RtudOp)
    (spares : ∀ op ∈ ops, op.Spares reserved) :
    Anchored base (run rtudStep s ops).rtuHtab (run rtudStep s ops).fpga := by
  have kept (s : RtuState) (op : RtudOp)
      (inv : s.hwReqList = [] ∧ Anchored base s.rtuHtab s.fpga) (ok : op.Spares reserved) :
      (rtudStep s op).hwReqList = [] ∧
        Anchored base (rtudStep s op).rtuHtab (rtudStep s op).fpga :=
    inv.2.rtud foundation inv.1 ok
  exact (run_invariant (fun s => s.hwReqList = [] ∧ Anchored base s.rtuHtab s.fpga)
    (fun _ (op : RtudOp) => op.Spares reserved) rtudStep kept s ops ⟨idle, anchored⟩
    (Along.of_forall rtudStep s spares)).2

private theorem Created.foundation {hashPoly : Word} {es : List (Mac × Word)} {m : SwState}
    {f : Fpga} (created : Created hashPoly es m f) : Foundation es m.rtuHtab where
  packed := created.housed.toPacked
  static := fun h b held => (created.only h b held).1
  listed := by
    intro h b held
    obtain ⟨_, _, e, listed, key⟩ := created.only h b held
    -- the entry of this address is in one slot only
    obtain ⟨h', b', held', key', binding⟩ := created.held e listed
    obtain ⟨rfl, rfl⟩ := created.housed.slot_unique held held' (key.trans key'.symm)
    have mac : (m.rtuHtab h b).mac = e.1 := congrArg Key.mac key
    have mask : (m.rtuHtab h b).portMaskDst = e.2 := congrArg Binding.mask binding
    rw [mac, mask]
    exact listed

private theorem Created.anchored {hashPoly : Word} {es : List (Mac × Word)} {m : SwState} {f : Fpga}
    (created : Created hashPoly es m f) : Anchored m.rtuHtab m.rtuHtab f where
  packed := created.housed.toPacked
  kept := fun _ _ _ => rfl
  above := fun _ _ held other => absurd held other
  words := by
    intro h b held
    obtain ⟨row, column⟩ := created.housed.inside h b held
    exact created.mirror h row b column

end WrSwitch.Rtu
