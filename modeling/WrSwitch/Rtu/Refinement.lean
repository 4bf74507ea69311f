import WrSwitch.Rtu.RepInvariant
import WrSwitch.Rtu.AbstractMap

/-!
# The hash table refines the abstract map

Along the runs that keep the representation invariant, every operation on the table is
an operation on the map it stands for.
-/
namespace WrSwitch.Rtu

open Machine

def keyOf (ent : RtuFilteringEntry) : Key := ⟨ent.mac, ent.fid⟩

def bindingOf (ent : RtuFilteringEntry) : Binding := ⟨ent.portMaskDst, ent.dynamic⟩

/-- Some valid slot holds this key with this binding. -/
def Htab.Holds (t : Htab) (k : Key) (v : Binding) : Prop :=
  ∃ h < htabEntries, ∃ b < rtuBuckets, t.Valid h b ∧ keyOf (t h b) = k ∧ bindingOf (t h b) = v

/-- The tuples in the valid slots are exactly the bindings of the map. -/
def Represents (t : Htab) (A : AbstractMap) : Prop := ∀ k v, t.Holds k v ↔ A k = some v

def SwState.env (m : SwState) : FdEnv where
  fidOf := fun vid =>
    if (m.vlanTab vid.toNat).drop = 0 then some (m.vlanTab vid.toNat).fid else none
  row := fun k => rtuHash m.hashPoly k.mac k.fid

/-! ### Tables and maps -/

private theorem holds_iff {t : Htab} (packed : Packed t) (k : Key) (v : Binding) :
    t.Holds k v ↔ ∃ h b, t.Valid h b ∧ keyOf (t h b) = k ∧ bindingOf (t h b) = v := by
  constructor
  · rintro ⟨h, _, b, _, found⟩
    exact ⟨h, b, found⟩
  · rintro ⟨h, b, found⟩
    obtain ⟨row, column⟩ := packed.inside h b found.1
    exact ⟨h, row, b, column, found⟩

private theorem represents_zero : Represents (fun _ _ => .zero) fun _ => none := by
  intro k v
  constructor
  · rintro ⟨h, _, b, _, occupied, _⟩
    exact absurd rfl occupied
  · intro impossible
    cases impossible

/-- Entries with one key lie in one slot. -/
theorem Housed.slot_unique {hashPoly : Word} {t : Htab} (housed : Housed hashPoly t)
    {h b h' b' : Nat} (left : t.Valid h b) (right : t.Valid h' b')
    (same : keyOf (t h b) = keyOf (t h' b')) : h = h' ∧ b = b' := by
  obtain ⟨row, column⟩ := housed.inside h b left
  obtain ⟨row', column'⟩ := housed.inside h' b' right
  exact housed.rep.unique h row b column h' row' b' column' left right
    (congrArg Key.mac same) (congrArg Key.fid same)

/-- A table in which no key occurs twice represents a map. -/
theorem Housed.represents {hashPoly : Word} {t : Htab} (housed : Housed hashPoly t) :
    ∃ A, Represents t A := by
  classical
  refine ⟨fun k => if held : ∃ v, t.Holds k v then some held.choose else none, ?_⟩
  intro k v
  dsimp only
  constructor
  · intro holds
    have held : ∃ v, t.Holds k v := ⟨v, holds⟩
    rw [dif_pos held]
    congr 1
    obtain ⟨h, b, occupied, key, binding⟩ := (holds_iff housed.toPacked k _).mp holds
    obtain ⟨h', b', occupied', key', binding'⟩ :=
      (holds_iff housed.toPacked k _).mp held.choose_spec
    -- a key has one slot, so it has one binding
    obtain ⟨rfl, rfl⟩ := housed.slot_unique occupied occupied' (key.trans key'.symm)
    exact binding'.symm.trans binding
  · intro chosen
    by_cases held : ∃ v, t.Holds k v
    · rw [dif_pos held] at chosen
      exact Option.some.inj chosen ▸ held.choose_spec
    · rw [dif_neg held] at chosen
      cases chosen

/-- An entry of the table is bound in the map. -/
theorem Represents.bound {t : Htab} {A : AbstractMap} (packed : Packed t)
    (represents : Represents t A) {h b : Nat} (occupied : t.Valid h b) :
    A (keyOf (t h b)) = some (bindingOf (t h b)) :=
  (represents _ _).mp ((holds_iff packed _ _).mpr ⟨h, b, occupied, rfl, rfl⟩)

/-- As many keys of the map lie in a row as the row has entries. -/
theorem rowKeys_ncard {m : SwState} (housed : Housed m.hashPoly m.rtuHtab) {A : AbstractMap}
    (represents : Represents m.rtuHtab A) (h : Nat) :
    (A.rowKeys m.env h).ncard = htabCountBuckets m.rtuHtab h := by
  -- the keys of a row are those of its filled slots, and no key stands twice
  have keys : A.rowKeys m.env h =
      (fun b => keyOf (m.rtuHtab h b)) ''
        ↑(Finset.range (htabCountBuckets m.rtuHtab h)) := by
    ext k
    rw [Set.mem_image]
    constructor
    · rintro ⟨row, bound⟩
      obtain ⟨v, held⟩ := Option.isSome_iff_exists.mp bound
      obtain ⟨h', b, occupied, rfl, _⟩ :=
        (holds_iff housed.toPacked k v).mp ((represents k v).mpr held)
      obtain rfl : h' = h := (housed.hashed h' b occupied).symm.trans row
      exact ⟨b, Finset.mem_coe.mpr (Finset.mem_range.mpr ((housed.valid_iff h' b).mp occupied)), rfl⟩
    · rintro ⟨b, below, rfl⟩
      have occupied := (housed.valid_iff h b).mpr (Finset.mem_range.mp (Finset.mem_coe.mp below))
      refine ⟨housed.hashed h b occupied, ?_⟩
      rw [represents.bound housed.toPacked occupied]
      rfl
  have injective : Set.InjOn (fun b => keyOf (m.rtuHtab h b))
      ↑(Finset.range (htabCountBuckets m.rtuHtab h)) := by
    intro b below c below' same
    rw [Finset.mem_coe, Finset.mem_range] at below below'
    exact (housed.slot_unique ((housed.valid_iff h b).mpr below)
      ((housed.valid_iff h c).mpr below') same).2
  rw [keys, injective.ncard_image, Set.ncard_coe_finset, Finset.card_range]

/-- Storing an entry in the only slot that may hold its key binds the key. -/
theorem Represents.set {t : Htab} {A : AbstractMap} (packed : Packed t)
    (represents : Represents t A) {i j : Nat} {ent : RtuFilteringEntry}
    (packed' : Packed (t.set i j ent)) (filled : ent.valid ≠ 0)
    (sole : ∀ h b, t.Valid h b → keyOf (t h b) = keyOf ent → h = i ∧ b = j)
    (same : t.Valid i j → keyOf (t i j) = keyOf ent) :
    Represents (t.set i j ent) (Function.update A (keyOf ent) (some (bindingOf ent))) := by
  intro k v
  have here : (t.set i j ent).Valid i j := by
    rw [Htab.Valid, set_self]
    exact filled
  rw [holds_iff packed']
  -- the new entry is the only one with its key, the others keep their slots
  by_cases own : k = keyOf ent
  · subst own
    rw [Function.update_self]
    constructor
    · rintro ⟨h, b, occupied, key, rfl⟩
      by_cases at_ : h = i ∧ b = j
      · rw [at_.1, at_.2, set_self]
      · rw [Htab.Valid, set_other ent at_] at occupied
        rw [set_other ent at_] at key
        exact absurd (sole h b occupied key) at_
    · intro binding
      refine ⟨i, j, here, ?_⟩
      rw [set_self]
      exact ⟨rfl, Option.some.inj binding⟩
  · rw [Function.update_of_ne own, ← represents k v, holds_iff packed]
    constructor
    · rintro ⟨h, b, occupied, key, binding⟩
      by_cases at_ : h = i ∧ b = j
      · rw [at_.1, at_.2, set_self] at key
        exact absurd key.symm own
      · rw [Htab.Valid, set_other ent at_] at occupied
        rw [set_other ent at_] at key binding
        exact ⟨h, b, occupied, key, binding⟩
    · rintro ⟨h, b, occupied, key, binding⟩
      have other : ¬(h = i ∧ b = j) := by
        rintro ⟨rfl, rfl⟩
        exact own (key.symm.trans (same occupied))
      refine ⟨h, b, ?_, ?_⟩
      · rw [Htab.Valid, set_other ent other]
        exact occupied
      · rw [set_other ent other]
        exact ⟨key, binding⟩

/-- Two tables with the same keys and the same bindings represent the same map. -/
theorem Represents.congr {t t' : Htab} {A : AbstractMap} (represents : Represents t A)
    (same : SameKeys t t') (binding : ∀ h b, bindingOf (t' h b) = bindingOf (t h b)) :
    Represents t' A := by
  intro k v
  rw [← represents k v]
  unfold Htab.Holds keyOf
  simp only [same.valid_iff, same.mac, same.fid, binding]

/-- Blanking the entries that satisfy `gone` deletes their bindings. -/
theorem Represents.blank_some {t : Htab} {A : AbstractMap} (represents : Represents t A)
    (gone : RtuFilteringEntry → Bool) (p : Key → Binding → Prop) [∀ k v, Decidable (p k v)]
    (means : ∀ h b, t.Valid h b → (gone (t h b) = true ↔ p (keyOf (t h b)) (bindingOf (t h b)))) :
    Represents (fun h b => if gone (t h b) = true then .zero else t h b) (A.delete p) := by
  intro k v
  rw [AbstractMap.delete_eq_some, ← represents k v]
  constructor
  · rintro ⟨h, row, b, column, occupied, key, binding⟩
    unfold Htab.Valid at occupied
    dsimp only at occupied key binding
    -- an emptied slot holds nothing, the others are as before
    by_cases removed : gone (t h b) = true
    · rw [if_pos removed] at occupied
      exact absurd rfl occupied
    · rw [if_neg removed] at occupied key binding
      refine ⟨⟨h, row, b, column, occupied, key, binding⟩, ?_⟩
      rw [← key, ← binding, ← means h b occupied]
      exact removed
  · rintro ⟨⟨h, row, b, column, occupied, key, binding⟩, kept⟩
    rw [← key, ← binding, ← means h b occupied] at kept
    refine ⟨h, row, b, column, ?_⟩
    unfold Htab.Valid
    dsimp only
    rw [if_neg kept]
    exact ⟨occupied, key, binding⟩

/-! ### Steps -/

private theorem one_ne_zero : (1 : Word) ≠ 0 := by decide

/-- What is not found is not bound. -/
theorem Represents.absent {t : Htab} {A : AbstractMap} (represents : Represents t A) {mac : Mac}
    {fid : Byte} (absent : htabSearch t mac fid = none) : A ⟨mac, fid⟩ = none := by
  cases held : A ⟨mac, fid⟩ with
  | none => rfl
  | some v =>
    obtain ⟨h, row, b, column, occupied, key, _⟩ := (represents _ _).mpr held
    exact absurd ⟨congrArg Key.mac key, congrArg Key.fid key⟩
      (htabSearch_none absent row column occupied)

/-- Creating an entry refines the map's operation. -/
theorem Represents.create {m : SwState} {A : AbstractMap}
    (housed : Housed m.hashPoly m.rtuHtab) (represents : Represents m.rtuHtab A) (mac : Mac)
    (vid : BitVec 16) (portMask dynamic : Word) (atExistingEntry : Int) (now : Word) :
    Represents (createHtab m mac vid portMask dynamic atExistingEntry now)
      (A.create m.env mac vid portMask dynamic atExistingEntry) := by
  have packed := housed.toPacked.create mac vid portMask dynamic atExistingEntry now
  have registered (kept : (m.vlanTab vid.toNat).drop = 0) :
      m.env.fidOf vid = some (m.vlanTab vid.toNat).fid := if_pos kept
  have present {i j : Nat}
      (found : htabSearch m.rtuHtab mac (m.vlanTab vid.toNat).fid = some (i, j)) :
      A ⟨mac, (m.vlanTab vid.toNat).fid⟩ = some (bindingOf (m.rtuHtab i j)) := by
    obtain ⟨_, occupied, rfl, sameFid⟩ := htabSearch_some found
    rw [← sameFid]
    exact represents.bound housed.toPacked occupied
  unfold createHtab at packed ⊢
  unfold AbstractMap.create
  -- each plan is one case of the abstract operation
  cases plan : createPlan m mac vid portMask dynamic atExistingEntry with
  | keep =>
    dsimp only
    rcases createPlan_keep plan with dropped | ⟨kept, i, j, found, why⟩
    -- the VLAN is dropped, or the entry has nothing to change
    · rw [show m.env.fidOf vid = none from if_neg dropped]
      exact represents
    · rw [registered kept]
      dsimp only
      rw [present found]
      dsimp only
      have same : (bindingOf (m.rtuHtab i j)).override portMask dynamic atExistingEntry =
          bindingOf (m.rtuHtab i j) := by
        unfold Binding.override
        rcases why with static | ⟨opened, mask, type⟩
        · exact if_pos static
        · exact (if_neg opened).trans (congrArg₂ Binding.mk mask.symm type.symm)
      rw [same, ← present found, Function.update_eq_self]
      exact represents
  | full =>
    dsimp only
    obtain ⟨kept, absent, full⟩ := createPlan_full plan
    rw [registered kept]
    dsimp only
    rw [represents.absent absent]
    dsimp only
    have rowFull : A.RowFull m.env (m.env.row ⟨mac, (m.vlanTab vid.toNat).fid⟩) := by
      unfold AbstractMap.RowFull
      rw [rowKeys_ncard housed represents]
      exact Nat.le_of_eq full.symm
    rw [if_pos rowFull]
    exact represents
  | update i j =>
    rw [plan] at packed
    dsimp only at packed ⊢
    obtain ⟨kept, found, opened, _⟩ := createPlan_update plan
    obtain ⟨_, occupied, sameMac, sameFid⟩ := htabSearch_some found
    rw [registered kept]
    dsimp only
    rw [present found]
    dsimp only
    have new : (bindingOf (m.rtuHtab i j)).override portMask dynamic atExistingEntry =
        ⟨updatedMask atExistingEntry portMask (m.rtuHtab i j), dynamic⟩ := if_neg opened
    rw [new, ← sameMac, ← sameFid]
    refine Represents.set housed.toPacked represents packed occupied ?_ (fun _ => rfl)
    intro h b held key
    exact housed.slot_unique held occupied key
  | insert eaddr =>
    rw [plan] at packed
    dsimp only at packed ⊢
    obtain ⟨kept, absent, hash, first, room⟩ := createPlan_insert plan
    rw [registered kept]
    dsimp only
    rw [represents.absent absent]
    dsimp only
    have free : ¬m.rtuHtab.Valid eaddr.hash eaddr.bucket := by
      rw [housed.valid_iff]
      omega
    have rowFree : ¬A.RowFull m.env (m.env.row ⟨mac, (m.vlanTab vid.toNat).fid⟩) := by
      unfold AbstractMap.RowFull
      rw [rowKeys_ncard housed represents]
      have le := htabCountBuckets_le m.rtuHtab eaddr.hash
      change ¬rtuBuckets ≤ htabCountBuckets m.rtuHtab
        (rtuHash m.hashPoly mac (m.vlanTab vid.toNat).fid)
      rw [← hash]
      omega
    rw [if_neg rowFree]
    refine Represents.set housed.toPacked represents packed one_ne_zero ?_
      (fun occupied => absurd occupied free)
    intro h b held key
    obtain ⟨row, column⟩ := housed.inside h b held
    exact absurd ⟨congrArg Key.mac key, congrArg Key.fid key⟩
      (htabSearch_none absent row column held)

/-- The bindings the aging update leaves are the ones it found. -/
theorem scannedHtab_binding (m : SwState) (op : FdOp) (h b : Nat) :
    bindingOf (scannedHtab m op h b) = bindingOf (m.rtuHtab h b) := by
  cases op with
  | create | remove | clear => rfl
  | flush bitmap t₁ t₂ =>
    unfold scannedHtab agedHtab agedEntry ageTouch
    dsimp only
    split
    · split <;> rfl
    · rfl

/-- Every operation that keeps the invariant is one step of the map. -/
theorem Represents.step {m : SwState} {A : AbstractMap} (housed : Housed m.hashPoly m.rtuHtab)
    (represents : Represents m.rtuHtab A) {op : FdOp} (tail : TailRemoval m op) :
    ∃ B, MapStep m.env A op B ∧ Represents (fdHtab m op) B := by
  have scanned := represents.congr (scannedHtab_sameKeys m op) (scannedHtab_binding m op)
  cases op with
  | create mac vid portMask dynamic atExistingEntry now =>
    exact ⟨_, .create .., represents.create housed mac vid portMask dynamic atExistingEntry now⟩
  | remove mac portMask type =>
    refine ⟨_, .remove .., ?_⟩
    rw [fdHtab_of_tail housed tail rfl]
    refine scanned.blank_some _ _ ?_
    intro h b occupied
    refine decide_eq_true_iff.trans ?_
    exact ⟨fun ⟨_, type, mac, mask⟩ => ⟨mac, type, mask⟩,
      fun ⟨mac, type, mask⟩ => ⟨occupied, type, mac, mask⟩⟩
  | clear destPort type =>
    refine ⟨_, .clear .., ?_⟩
    rw [fdHtab_of_tail housed tail rfl]
    refine scanned.blank_some _ _ ?_
    intro h b occupied
    exact decide_eq_true_iff.trans (and_iff_right occupied)
  | flush bitmap t₁ t₂ =>
    classical
    -- the map loses the bindings whose entries the scan finds too old
    let aged : Key → Binding → Prop := fun k _ => ∃ h b,
      (scannedHtab m (.flush bitmap t₁ t₂)).Valid h b ∧
      keyOf (scannedHtab m (.flush bitmap t₁ t₂) h b) = k ∧
      fdDoomed m (.flush bitmap t₁ t₂) (scannedHtab m (.flush bitmap t₁ t₂) h b) = true
    have home := housed.congr (scannedHtab_sameKeys m (.flush bitmap t₁ t₂))
    refine ⟨A.delete aged, .flush _ _ _ _ _ ?_, ?_⟩
    · intro k
      unfold AbstractMap.delete
      cases held : A k with
      | none => exact .inl rfl
      | some v =>
        by_cases old : aged k v
        · refine .inr ⟨?_, v, rfl, ?_⟩
          · simp only [Option.filter, old, not_true_eq_false, decide_false, Bool.false_eq_true,
              if_false]
          · obtain ⟨h, b, occupied, rfl, chosen⟩ := old
            have binding := (scanned.bound home.toPacked occupied).symm.trans held
            rw [← Option.some.inj binding]
            exact (of_decide_eq_true chosen).2.1
        · refine .inl ?_
          simp only [Option.filter, old, not_false_eq_true, decide_true, if_true]
    · rw [fdHtab_of_tail housed tail rfl]
      refine scanned.blank_some _ aged ?_
      intro h b occupied
      constructor
      · intro chosen
        exact ⟨h, b, occupied, rfl, chosen⟩
      · rintro ⟨h', b', occupied', key, chosen⟩
        obtain ⟨rfl, rfl⟩ := home.slot_unique occupied' occupied key
        exact chosen

/-! ### Runs -/

/-- An admitted run is a run of the map. -/
theorem run_represents (m : SwState) (ops : List FdOp) (env : FdEnv) (A : AbstractMap)
    (same : m.env = env) (housed : Housed m.hashPoly m.rtuHtab)
    (represents : Represents m.rtuHtab A) (along : Along TailRemoval fdSwStep m ops) :
    ∃ B, Runs (MapStep env) A ops B ∧ Represents (run fdSwStep m ops).rtuHtab B := by
  let Rel : SwState → AbstractMap → Prop := fun m A =>
    m.env = env ∧ Housed m.hashPoly m.rtuHtab ∧ Represents m.rtuHtab A
  have matched (m : SwState) (A : AbstractMap) (op : FdOp) (related : Rel m A)
      (tail : TailRemoval m op) : ∃ B, MapStep env A op B ∧ Rel (fdSwStep m op) B := by
    obtain ⟨rfl, housed, represents⟩ := related
    obtain ⟨B, moved, represented⟩ := represents.step housed tail
    exact ⟨B, moved, rfl, housed.step tail, represented⟩
  obtain ⟨B, runs, _, _, represented⟩ := run_simulates Rel TailRemoval fdSwStep (MapStep env)
    matched m A ops ⟨same, housed, represents⟩ along
  exact ⟨B, runs, represented⟩

/-- One more operation of an admitted run, seen on the tables before and after it. -/
theorem lastStep_represents (s₀ : RtuState) (ops : List FdOp) (op : FdOp)
    (idle : s₀.hwReqList = [])
    (along : Along (fun s op => TailRemoval s.toSwState op) fdStep (cleanFd s₀) (ops ++ [op])) :
    ∃ env A B, Represents (run fdStep (cleanFd s₀) ops).rtuHtab A ∧ MapStep env A op B ∧
      Represents (run fdStep (cleanFd s₀) (ops ++ [op])).rtuHtab B := by
  obtain ⟨before, tail, _⟩ := Along.append.mp along
  have housed := cleanFd_housed s₀ ops idle before
  obtain ⟨A, represents⟩ := housed.represents
  obtain ⟨B, moved, represented⟩ := represents.step housed tail
  refine ⟨_, A, B, represents, moved, ?_⟩
  rw [run_concat, fdStep_toSwState _ _ (run_idle _ ops (cleanFd_idle s₀ idle))]
  exact represented

/-- From the cleared database on, every run whose removals only take the last entries of
their rows is a run of the map; on the way no static binding is lost or changed without
an operator, and no deleted binding survives. -/
theorem fd_refines_map (s₀ : RtuState) (ops : List FdOp) (idle : s₀.hwReqList = [])
    (along : Along (fun s op => TailRemoval s.toSwState op) fdStep (cleanFd s₀) ops) :
    (∃ A, Runs (MapStep s₀.env) (fun _ => none) ops A ∧
      Represents (run fdStep (cleanFd s₀) ops).rtuHtab A) ∧
    ∀ before op, before ++ [op] <+: ops →
      (op.Background → ∀ k mask,
        (run fdStep (cleanFd s₀) before).rtuHtab.Holds k ⟨mask, rtuEntryTypeStatic⟩ →
        (run fdStep (cleanFd s₀) (before ++ [op])).rtuHtab.Holds k ⟨mask, rtuEntryTypeStatic⟩) ∧
      ∀ k v, op.Deletes k v →
        ¬(run fdStep (cleanFd s₀) (before ++ [op])).rtuHtab.Holds k v := by
  constructor
  · have waiting := cleanFd_idle s₀ idle
    rw [along_toSwState TailRemoval _ _ waiting, cleanFd_toSwState] at along
    rw [run_toSwState _ _ waiting, cleanFd_toSwState]
    exact run_represents _ ops s₀.env _ rfl (housed_zero _) represents_zero along
  · rintro before op ⟨after, rfl⟩
    -- the last step is one of the map, whatever came before
    obtain ⟨env, A, B, old, moved, new⟩ :=
      lastStep_represents s₀ before op idle (Along.append.mp along).1
    refine ⟨?_, ?_⟩
    · intro background k mask held
      exact (new k _).mpr (moved.static background ((old k _).mp held))
    · intro k v deleted held
      exact moved.deleted deleted ((new k v).mp held)

/-- Removing the entry learned last is a step of the map. -/
theorem fd_refines_map_last :
    ∃ A, Runs (MapStep firstStartState.env) (fun _ => none) removeLast A ∧
      Represents (run fdStep (cleanFd firstStartState) removeLast).rtuHtab A :=
  (fd_refines_map firstStartState _ rfl removeLast_along).1

/-- Removing first the one, then the other of two colliding entries leaves the second. -/
theorem fd_refines_map_broken :
    ¬∃ A, Runs (MapStep firstStartState.env) (fun _ => none)
        (removeFirst ++ [.remove macB 2 rtuEntryTypeDynamic]) A ∧
      Represents (run fdStep (cleanFd firstStartState)
        (removeFirst ++ [.remove macB 2 rtuEntryTypeDynamic])).rtuHtab A := by
  rintro ⟨A, runs, represents⟩
  rw [run_toSwState _ _ (cleanFd_idle _ rfl), cleanFd_toSwState] at represents
  have survives :
      let t := (run fdSwStep firstStart
        (removeFirst ++ [.remove macB 2 rtuEntryTypeDynamic])).rtuHtab
      t.Valid 95 0 ∧ keyOf (t 95 0) = ⟨macB, 0⟩ ∧
        bindingOf (t 95 0) = ⟨2, rtuEntryTypeDynamic⟩ := by
    decide +kernel
  have bound := (represents ⟨macB, 0⟩ ⟨2, rtuEntryTypeDynamic⟩).mp
    ⟨95, by decide, 0, by decide, survives⟩
  obtain ⟨B, _, moved⟩ := runs.last
  exact moved.deleted ⟨rfl, rfl, rfl⟩ bound

end WrSwitch.Rtu
