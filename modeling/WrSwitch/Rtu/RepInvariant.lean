import WrSwitch.Rtu.Table

/-!
# Representation invariant of the hash table

The rows of the mirror stay packed whatever is done to them. That every entry lies in the
row of its hash, records its own position and is the only one of its key survives
insertions and updates, but not the compaction of a row: it is kept along the runs whose
removals only ever take the last entries of a row.
-/
namespace WrSwitch.Rtu

open Machine

/-- Slot `(h, b)` holds an entry. -/
def Htab.Valid (t : Htab) (h b : Nat) : Prop := (t h b).valid ≠ 0

instance (t : Htab) (h b : Nat) : Decidable (t.Valid h b) :=
  inferInstanceAs (Decidable (_ ≠ _))

/-- The representation invariant that `rtu_fd.c` relies on. -/
structure RepInvariant (hashPoly : Word) (t : Htab) : Prop where
  packed : ∀ h < htabEntries, ∀ b < rtuBuckets, ∀ a ≤ b, t.Valid h b → t.Valid h a
  unique : ∀ h < htabEntries, ∀ b < rtuBuckets, ∀ h' < htabEntries, ∀ b' < rtuBuckets,
    t.Valid h b → t.Valid h' b' → (t h b).mac = (t h' b').mac → (t h b).fid = (t h' b').fid →
    h = h' ∧ b = b'
  placed : ∀ h < htabEntries, ∀ b < rtuBuckets, t.Valid h b →
    rtuHash hashPoly (t h b).mac (t h b).fid = h ∧ (t h b).addr = ⟨h, b⟩

/-- Two slots of a row never hold the same entry. -/
theorem RepInvariant.distinct {hashPoly : Word} {t : Htab} (rep : RepInvariant hashPoly t)
    {h a b : Nat} (row : h < htabEntries) (left : a < rtuBuckets) (right : b < rtuBuckets)
    (differ : a ≠ b) (occupied : t.Valid h b) : t h a ≠ t h b := by
  intro same
  have first : t.Valid h a := by
    rw [Htab.Valid, same]
    exact occupied
  exact differ (rep.unique h row a left h row b right first occupied (by rw [same])
    (by rw [same])).2

/-! ### Packed rows -/

/-- What holds of the table after any operation: rows are packed, free slots are blank,
and a stored address names the row it is found in. -/
structure Packed (t : Htab) : Prop where
  down : ∀ h, IsPrefix (t.Valid h) rtuBuckets
  blank : ∀ h b, ¬t.Valid h b → t h b = .zero
  flag : ∀ h b, t.Valid h b → (t h b).valid = 1
  inside : ∀ h b, t.Valid h b → h < htabEntries ∧ b < rtuBuckets
  row : ∀ h b, t.Valid h b → (t h b).addr.hash = h ∧ (t h b).addr.bucket < rtuBuckets

theorem not_valid_zero {t : Htab} {h b : Nat} (empty : t h b = .zero) : ¬t.Valid h b := by
  intro occupied
  rw [Htab.Valid, empty] at occupied
  exact occupied rfl

/-- An empty table has no gaps. -/
theorem packed_zero : Packed fun _ _ => .zero where
  down := fun _ _ _ occupied => absurd rfl occupied
  blank := fun _ _ _ => rfl
  flag := fun _ _ occupied => absurd rfl occupied
  inside := fun _ _ occupied => absurd rfl occupied
  row := fun _ _ occupied => absurd rfl occupied

/-- In a row without gaps the entries are the first ones. -/
theorem Packed.valid_iff {t : Htab} (packed : Packed t) (h b : Nat) :
    t.Valid h b ↔ b < htabCountBuckets t h := by
  constructor
  · intro occupied
    exact ((packed.down h).iff_lt_count (packed.inside h b occupied).2).mp occupied
  · intro below
    have bound : b < rtuBuckets :=
      Nat.lt_of_lt_of_le below (countBelow_le (t.Valid h) rtuBuckets)
    exact ((packed.down h).iff_lt_count bound).mpr below

/-- A row has four places. -/
theorem htabCountBuckets_le (t : Htab) (h : Nat) : htabCountBuckets t h ≤ rtuBuckets :=
  countBelow_le (t.Valid h) rtuBuckets

theorem set_self (t : Htab) (i j : Nat) (ent : RtuFilteringEntry) : t.set i j ent i j = ent :=
  if_pos ⟨rfl, rfl⟩

theorem set_other {t : Htab} {i j h b : Nat} (ent : RtuFilteringEntry)
    (other : ¬(h = i ∧ b = j)) : t.set i j ent h b = t h b :=
  if_neg other

/-- Two tables with the same keys at the same places; only the data of the entries differ. -/
structure SameKeys (t t' : Htab) : Prop where
  valid : ∀ h b, (t' h b).valid = (t h b).valid
  mac : ∀ h b, (t' h b).mac = (t h b).mac
  fid : ∀ h b, (t' h b).fid = (t h b).fid
  addr : ∀ h b, (t' h b).addr = (t h b).addr
  blank : ∀ h b, t h b = .zero → t' h b = .zero

/-- The same keys, the same places. -/
theorem SameKeys.valid_iff {t t' : Htab} (same : SameKeys t t') (h b : Nat) :
    t'.Valid h b ↔ t.Valid h b := by
  rw [Htab.Valid, Htab.Valid, same.valid]

/-- Gaps depend on the keys only. -/
theorem Packed.congr {t t' : Htab} (packed : Packed t) (same : SameKeys t t') : Packed t' := by
  refine ⟨?_, ?_, ?_, ?_, ?_⟩
  · intro h b bound
    rw [same.valid_iff, same.valid_iff]
    exact packed.down h b bound
  · intro h b empty
    rw [same.valid_iff] at empty
    exact same.blank h b (packed.blank h b empty)
  · intro h b
    rw [same.valid_iff, same.valid]
    exact packed.flag h b
  · intro h b
    rw [same.valid_iff]
    exact packed.inside h b
  · intro h b
    rw [same.valid_iff, same.addr]
    exact packed.row h b

/-- Filling the first free slot of a row. -/
theorem Packed.insert {t : Htab} (packed : Packed t) {eaddr : RtuAddr}
    (row : eaddr.hash < htabEntries) (first : eaddr.bucket = htabCountBuckets t eaddr.hash)
    (room : eaddr.bucket ≠ rtuBuckets) {ent : RtuFilteringEntry} (flag : ent.valid = 1)
    (addr : ent.addr = eaddr) : Packed (t.set eaddr.hash eaddr.bucket ent) := by
  have bound : eaddr.bucket < rtuBuckets := by
    have le := htabCountBuckets_le t eaddr.hash
    omega
  have filled : (t.set eaddr.hash eaddr.bucket ent).Valid eaddr.hash eaddr.bucket := by
    rw [Htab.Valid, set_self, flag]
    decide
  -- the filled slots are the old ones and the new one
  have iff (h b : Nat) : (t.set eaddr.hash eaddr.bucket ent).Valid h b ↔
      (h = eaddr.hash ∧ b = eaddr.bucket) ∨ t.Valid h b := by
    by_cases here : h = eaddr.hash ∧ b = eaddr.bucket
    · obtain ⟨rfl, rfl⟩ := here
      exact ⟨fun _ => .inl ⟨rfl, rfl⟩, fun _ => filled⟩
    · rw [Htab.Valid, set_other ent here]
      exact ⟨.inr, fun either => either.resolve_left here⟩
  refine ⟨?_, ?_, ?_, ?_, ?_⟩
  · intro h b inRow
    rw [iff, iff]
    rintro (⟨rfl, last⟩ | occupied)
    · refine .inr ((packed.valid_iff _ _).mpr ?_)
      omega
    · exact .inr (packed.down h b inRow occupied)
  · intro h b empty
    rw [iff, not_or] at empty
    rw [set_other ent empty.1]
    exact packed.blank h b empty.2
  · intro h b occupied
    by_cases here : h = eaddr.hash ∧ b = eaddr.bucket
    · obtain ⟨rfl, rfl⟩ := here
      rw [set_self, flag]
    · rw [set_other ent here]
      exact packed.flag h b (((iff h b).mp occupied).resolve_left here)
  · intro h b occupied
    rcases (iff h b).mp occupied with ⟨rfl, rfl⟩ | before
    · exact ⟨row, bound⟩
    · exact packed.inside h b before
  · intro h b occupied
    by_cases here : h = eaddr.hash ∧ b = eaddr.bucket
    · obtain ⟨rfl, rfl⟩ := here
      rw [set_self, addr]
      exact ⟨rfl, bound⟩
    · rw [set_other ent here]
      exact packed.row h b (((iff h b).mp occupied).resolve_left here)

/-- Clearing one slot, as the `memset` of `delete_htab_entry` does when nothing lies above it. -/
theorem erase_last {t : Htab} {addr : RtuAddr}
    (last : htabCountBuckets t addr.hash ≤ addr.bucket + 1) :
    t.erase addr = t.set addr.hash addr.bucket .zero := by
  funext h b
  unfold Htab.erase compactRow Htab.set
  dsimp only
  rw [if_neg (Nat.not_lt.mpr last)]
  by_cases row : h = addr.hash
  · subst row
    simp only [if_true, true_and]
  · simp only [row, if_false, false_and]

/-- The row after the `memmove`: the last entry stands twice. -/
theorem erase_shift {t : Htab} {addr : RtuAddr}
    (above : addr.bucket + 1 < htabCountBuckets t addr.hash) (b : Nat) :
    t.erase addr addr.hash b =
      if addr.bucket ≤ b ∧ b + 1 < htabCountBuckets t addr.hash then t addr.hash (b + 1)
      else t addr.hash b := by
  unfold Htab.erase compactRow
  rw [if_pos rfl, if_pos above]
  split
  next moved => exact if_neg (by omega)
  next still =>
    refine if_neg ?_
    rintro rfl
    exact still ⟨Nat.le_refl _, above⟩

theorem erase_other {t : Htab} {addr : RtuAddr} {h : Nat} (other : h ≠ addr.hash) (b : Nat) :
    t.erase addr h b = t h b :=
  if_neg other

/-- Clearing the last entry of a row. -/
theorem Packed.clear {t : Htab} (packed : Packed t) {h : Nat} {b : Nat}
    (last : htabCountBuckets t h ≤ b + 1) : Packed (t.set h b .zero) := by
  -- the filled slots are the old ones but the one cleared
  have iff (i j : Nat) : (t.set h b .zero).Valid i j ↔ ¬(i = h ∧ j = b) ∧ t.Valid i j := by
    by_cases here : i = h ∧ j = b
    · obtain ⟨rfl, rfl⟩ := here
      have empty := not_valid_zero (set_self t i j .zero)
      simp only [empty, and_self, not_true_eq_false, false_and]
    · rw [Htab.Valid, set_other _ here]
      exact ⟨fun occupied => ⟨here, occupied⟩, And.right⟩
  refine ⟨?_, ?_, ?_, ?_, ?_⟩
  · intro i j bound
    rw [iff, iff, packed.valid_iff, packed.valid_iff]
    rintro ⟨other, below⟩
    refine ⟨?_, by omega⟩
    rintro ⟨rfl, rfl⟩
    omega
  · intro i j empty
    by_cases here : i = h ∧ j = b
    · rw [here.1, here.2, set_self]
    · rw [set_other _ here]
      exact packed.blank i j fun occupied => empty ((iff i j).mpr ⟨here, occupied⟩)
  · intro i j occupied
    obtain ⟨other, before⟩ := (iff i j).mp occupied
    rw [set_other _ other]
    exact packed.flag i j before
  · intro i j occupied
    exact packed.inside i j ((iff i j).mp occupied).2
  · intro i j occupied
    obtain ⟨other, before⟩ := (iff i j).mp occupied
    rw [set_other _ other]
    exact packed.row i j before

/-- `delete_htab_entry` keeps the rows packed, whatever slot it is asked to delete. -/
theorem Packed.erase {t : Htab} (packed : Packed t) (addr : RtuAddr) : Packed (t.erase addr) := by
  by_cases above : addr.bucket + 1 < htabCountBuckets t addr.hash
  · -- every slot now holds an entry that was in the row before, and no slot is freed
    have source (h b : Nat) : ∃ c, t.erase addr h b = t h c ∧ (t.Valid h c ↔ t.Valid h b) := by
      by_cases other : h = addr.hash
      · subst other
        rw [erase_shift above]
        split
        next moved =>
          refine ⟨b + 1, rfl, ?_⟩
          rw [packed.valid_iff, packed.valid_iff]
          omega
        next => exact ⟨b, rfl, Iff.rfl⟩
      · exact ⟨b, erase_other other b, Iff.rfl⟩
    have iff (h b : Nat) : (t.erase addr).Valid h b ↔ t.Valid h b := by
      -- the slot is read where the shift took it from
      obtain ⟨c, taken, same⟩ := source h b
      rw [← same, Htab.Valid, taken]
      exact Iff.rfl
    refine ⟨?_, ?_, ?_, ?_, ?_⟩
    · intro h b bound
      rw [iff, iff]
      exact packed.down h b bound
    · intro h b empty
      obtain ⟨c, taken, same⟩ := source h b
      rw [taken]
      exact packed.blank h c fun occupied => empty ((iff h b).mpr (same.mp occupied))
    · intro h b occupied
      obtain ⟨c, taken, same⟩ := source h b
      rw [taken]
      exact packed.flag h c (same.mpr ((iff h b).mp occupied))
    · intro h b occupied
      exact packed.inside h b ((iff h b).mp occupied)
    · intro h b occupied
      obtain ⟨c, taken, same⟩ := source h b
      rw [taken]
      exact packed.row h c (same.mpr ((iff h b).mp occupied))
  · rw [erase_last (by omega)]
    exact packed.clear (by omega)

/-- Removals leave no gaps. -/
theorem Packed.commit {t : Htab} (packed : Packed t) (reqs : List HwReq) :
    Packed (commitHtab t reqs) := by
  refine run_preserves Packed commitReq ?_ t reqs packed
  intro t req packed
  unfold commitReq
  cases req.type with
  | write => exact packed
  | remove => exact packed.erase req.addr

/-! ### Searching, updating and aging -/

/-- What is found is an entry with that address and FID. -/
theorem htabSearch_some {t : Htab} {mac : Mac} {fid : Byte} {i j : Nat}
    (found : htabSearch t mac fid = some (i, j)) :
    (i < htabEntries ∧ j < rtuBuckets) ∧ t.Valid i j ∧ (t i j).mac = mac ∧
      (t i j).fid = fid := by
  unfold htabSearch at found
  have passed := List.find?_some found
  dsimp only at passed
  exact ⟨(mem_slots (i, j)).mp (List.mem_of_find?_eq_some found), of_decide_eq_true passed⟩

/-- What is not found is in no row. -/
theorem htabSearch_none {t : Htab} {mac : Mac} {fid : Byte}
    (absent : htabSearch t mac fid = none) {h b : Nat} (row : h < htabEntries)
    (column : b < rtuBuckets) (occupied : t.Valid h b) :
    ¬((t h b).mac = mac ∧ (t h b).fid = fid) := by
  rintro ⟨sameMac, sameFid⟩
  unfold htabSearch at absent
  have passed := List.find?_eq_none.mp absent (h, b) ((mem_slots (h, b)).mpr ⟨row, column⟩)
  exact passed (decide_eq_true ⟨occupied, sameMac, sameFid⟩)

/-- An update keeps the keys. -/
theorem updatedHtab_sameKeys {t : Htab} {i j : Nat} (occupied : t.Valid i j)
    (portMask dynamic : Word) (atExistingEntry : Int) (now : Word) :
    SameKeys t (updatedHtab t i j portMask dynamic atExistingEntry now) := by
  unfold updatedHtab
  refine ⟨?_, ?_, ?_, ?_, ?_⟩
  iterate 4
    intro h b
    by_cases here : h = i ∧ b = j
    · obtain ⟨rfl, rfl⟩ := here
      rw [set_self]
    · rw [set_other _ here]
  intro h b empty
  have other : ¬(h = i ∧ b = j) := by
    rintro ⟨rfl, rfl⟩
    exact not_valid_zero empty occupied
  rw [set_other _ other, empty]

/-- New times of access keep the keys. -/
theorem agedHtab_sameKeys (bitmap : Nat → Word) (t : Word) (tab : Htab) :
    SameKeys tab (agedHtab bitmap t tab) := by
  have data (h b : Nat) : ∃ age last, agedHtab bitmap t tab h b =
      { tab h b with age := age, lastAccessT := last } := by
    unfold agedHtab agedEntry ageTouch
    split
    · split
      · exact ⟨_, _, rfl⟩
      · exact ⟨_, _, rfl⟩
    · exact ⟨_, _, rfl⟩
  refine ⟨?_, ?_, ?_, ?_, ?_⟩
  iterate 4
    intro h b
    obtain ⟨age, last, equal⟩ := data h b
    rw [equal]
  -- a blank slot counts as static, so its clock fields stay zero
  intro h b empty
  have static : (tab h b).dynamic = rtuEntryTypeStatic := by
    rw [empty]
    rfl
  unfold agedHtab agedEntry ageTouch
  rw [if_pos static, ite_self, empty]

/-- What an operation does before its removals keeps the keys. -/
theorem scannedHtab_sameKeys (m : SwState) (op : FdOp) :
    SameKeys m.rtuHtab (scannedHtab m op) := by
  cases op with
  | flush bitmap t₁ t₂ => exact agedHtab_sameKeys bitmap t₁ m.rtuHtab
  | create | remove | clear =>
    exact ⟨fun _ _ => rfl, fun _ _ => rfl, fun _ _ => rfl, fun _ _ => rfl, fun _ _ => id⟩

/-! ### Every operation keeps the rows packed -/

/-- A new entry leaves no gap. -/
theorem Packed.create {m : SwState} (packed : Packed m.rtuHtab) (mac : Mac) (vid : BitVec 16)
    (portMask dynamic : Word) (atExistingEntry : Int) (now : Word) :
    Packed (createHtab m mac vid portMask dynamic atExistingEntry now) := by
  unfold createHtab
  split
  next => exact packed
  next => exact packed
  next i j plan =>
    obtain ⟨_, found, _, _⟩ := createPlan_update plan
    exact packed.congr (updatedHtab_sameKeys (htabSearch_some found).2.1 _ _ _ _)
  next eaddr plan =>
    obtain ⟨_, _, row, first, room⟩ := createPlan_insert plan
    exact packed.insert (row ▸ rtuHash_lt _ _ _) first room rfl rfl

/-- No operation leaves a gap. -/
theorem Packed.step {m : SwState} (packed : Packed m.rtuHtab) (op : FdOp) :
    Packed (fdHtab m op) := by
  cases op with
  | create mac vid portMask dynamic atExistingEntry now =>
    exact packed.create mac vid portMask dynamic atExistingEntry now
  | remove mac portMask type => exact packed.commit _
  | clear destPort type => exact packed.commit _
  | flush bitmap t₁ t₂ => exact (packed.congr (agedHtab_sameKeys bitmap t₁ m.rtuHtab)).commit _

/-- In every reachable state the rows are packed. -/
theorem run_packed (m : SwState) (ops : List FdOp) (packed : Packed m.rtuHtab) :
    Packed (run fdSwStep m ops).rtuHtab :=
  run_preserves (fun m => Packed m.rtuHtab) fdSwStep (fun _ op packed => packed.step op) m ops
    packed

/-! ### Entries at home -/

/-- Packed rows, with every entry at its own address, in the row of its hash, and only once. -/
structure Housed (hashPoly : Word) (t : Htab) : Prop extends Packed t where
  hashed : ∀ h b, t.Valid h b → rtuHash hashPoly (t h b).mac (t h b).fid = h
  own : ∀ h b, t.Valid h b → (t h b).addr = ⟨h, b⟩
  once : ∀ h b c, t.Valid h b → t.Valid h c → (t h b).mac = (t h c).mac →
    (t h b).fid = (t h c).fid → b = c

/-- Entries in their own rows, without gaps and each once, make the invariant. -/
theorem Housed.rep {hashPoly : Word} {t : Htab} (housed : Housed hashPoly t) :
    RepInvariant hashPoly t where
  packed := by
    intro h _ b bound a below occupied
    exact (housed.down h).down below bound occupied
  unique := by
    intro h _ b _ h' _ b' _ left right sameMac sameFid
    have row : h = h' := by
      rw [← housed.hashed h b left, ← housed.hashed h' b' right, sameMac, sameFid]
    subst row
    exact ⟨rfl, housed.once h b b' left right sameMac sameFid⟩
  placed := fun h _ b _ occupied => ⟨housed.hashed h b occupied, housed.own h b occupied⟩

/-- An empty table is housed. -/
theorem housed_zero (hashPoly : Word) : Housed hashPoly fun _ _ => .zero where
  toPacked := packed_zero
  hashed := fun _ _ occupied => absurd rfl occupied
  own := fun _ _ occupied => absurd rfl occupied
  once := fun _ _ _ occupied => absurd rfl occupied

theorem Housed.congr {hashPoly : Word} {t t' : Htab} (housed : Housed hashPoly t)
    (same : SameKeys t t') : Housed hashPoly t' where
  toPacked := housed.toPacked.congr same
  hashed := by
    intro h b
    rw [same.valid_iff, same.mac, same.fid]
    exact housed.hashed h b
  own := by
    intro h b
    rw [same.valid_iff, same.addr]
    exact housed.own h b
  once := by
    intro h b c
    rw [same.valid_iff, same.valid_iff, same.mac, same.mac, same.fid, same.fid]
    exact housed.once h b c

/-- Blanking entries keeps the rest at home as long as the rows stay packed. -/
theorem Housed.blank_some {hashPoly : Word} {t : Htab} (housed : Housed hashPoly t)
    (gone : Nat → Nat → Prop) [∀ h b, Decidable (gone h b)]
    (tail : ∀ h b, b + 1 < rtuBuckets → gone h b → t.Valid h (b + 1) → gone h (b + 1)) :
    Housed hashPoly fun h b => if gone h b then .zero else t h b := by
  -- what is left of the table
  have rest {h b : Nat} : Htab.Valid (fun h b => if gone h b then .zero else t h b) h b ↔
      ¬gone h b ∧ t.Valid h b := by
    unfold Htab.Valid
    dsimp only
    split
    next removed => simp only [zero_valid, ne_eq, not_true_eq_false, removed, false_and]
    next kept => exact ⟨fun occupied => ⟨kept, occupied⟩, And.right⟩
  refine ⟨⟨?_, ?_, ?_, ?_, ?_⟩, ?_, ?_, ?_⟩
  · intro h b bound
    rw [rest, rest]
    rintro ⟨kept, occupied⟩
    exact ⟨fun removed => kept (tail h b bound removed occupied), housed.down h b bound occupied⟩
  · intro h b empty
    rw [rest] at empty
    split
    next => rfl
    next kept => exact housed.blank h b fun occupied => empty ⟨kept, occupied⟩
  · intro h b occupied
    obtain ⟨kept, before⟩ := rest.mp occupied
    rw [if_neg kept]
    exact housed.flag h b before
  · intro h b occupied
    exact housed.inside h b (rest.mp occupied).2
  · intro h b occupied
    obtain ⟨kept, before⟩ := rest.mp occupied
    rw [if_neg kept]
    exact housed.row h b before
  · intro h b occupied
    obtain ⟨kept, before⟩ := rest.mp occupied
    rw [if_neg kept]
    exact housed.hashed h b before
  · intro h b occupied
    obtain ⟨kept, before⟩ := rest.mp occupied
    rw [if_neg kept]
    exact housed.own h b before
  · intro h b c left right
    obtain ⟨keptLeft, left⟩ := rest.mp left
    obtain ⟨keptRight, right⟩ := rest.mp right
    rw [if_neg keptLeft, if_neg keptRight]
    exact housed.once h b c left right

/-- Inserting a key that the row does not hold yet. -/
theorem Housed.insert {hashPoly : Word} {t : Htab} (housed : Housed hashPoly t)
    {eaddr : RtuAddr} {ent : RtuFilteringEntry} (addr : ent.addr = eaddr)
    (hash : rtuHash hashPoly ent.mac ent.fid = eaddr.hash) (fresh : ∀ b, t.Valid eaddr.hash b →
      ¬((t eaddr.hash b).mac = ent.mac ∧ (t eaddr.hash b).fid = ent.fid))
    (packed : Packed (t.set eaddr.hash eaddr.bucket ent)) :
    Housed hashPoly (t.set eaddr.hash eaddr.bucket ent) := by
  -- only the new slot is filled anew
  have before {h b : Nat} (other : ¬(h = eaddr.hash ∧ b = eaddr.bucket))
      (occupied : (t.set eaddr.hash eaddr.bucket ent).Valid h b) : t.Valid h b := by
    rw [Htab.Valid, set_other ent other] at occupied
    exact occupied
  refine ⟨packed, ?_, ?_, ?_⟩
  · intro h b occupied
    by_cases here : h = eaddr.hash ∧ b = eaddr.bucket
    · obtain ⟨rfl, rfl⟩ := here
      rw [set_self, hash]
    · rw [set_other ent here]
      exact housed.hashed h b (before here occupied)
  · intro h b occupied
    by_cases here : h = eaddr.hash ∧ b = eaddr.bucket
    · obtain ⟨rfl, rfl⟩ := here
      rw [set_self, addr]
    · rw [set_other ent here]
      exact housed.own h b (before here occupied)
  -- the new entry is fresh, so it shares its key with no other slot
  · intro h b c left right
    by_cases leftHere : h = eaddr.hash ∧ b = eaddr.bucket
    · by_cases rightHere : h = eaddr.hash ∧ c = eaddr.bucket
      · exact fun _ _ => leftHere.2.trans rightHere.2.symm
      · obtain ⟨rfl, rfl⟩ := leftHere
        rw [set_self, set_other ent rightHere]
        intro sameMac sameFid
        exact absurd ⟨sameMac.symm, sameFid.symm⟩ (fresh c (before rightHere right))
    · by_cases rightHere : h = eaddr.hash ∧ c = eaddr.bucket
      · obtain ⟨rfl, rfl⟩ := rightHere
        rw [set_self, set_other ent leftHere]
        intro sameMac sameFid
        exact absurd ⟨sameMac, sameFid⟩ (fresh b (before leftHere left))
      · rw [set_other ent leftHere, set_other ent rightHere]
        exact housed.once h b c (before leftHere left) (before rightHere right)

/-- A new entry goes into the row of its hash. -/
theorem Housed.create {m : SwState} (housed : Housed m.hashPoly m.rtuHtab) (mac : Mac)
    (vid : BitVec 16) (portMask dynamic : Word) (atExistingEntry : Int) (now : Word) :
    Housed m.hashPoly (createHtab m mac vid portMask dynamic atExistingEntry now) := by
  have packed := housed.toPacked.create mac vid portMask dynamic atExistingEntry now
  unfold createHtab at packed ⊢
  split at packed
  next => exact housed
  next => exact housed
  next i j plan =>
    obtain ⟨_, found, _, _⟩ := createPlan_update plan
    exact housed.congr (updatedHtab_sameKeys (htabSearch_some found).2.1 _ _ _ _)
  next eaddr plan =>
    obtain ⟨_, absent, hash, _, _⟩ := createPlan_insert plan
    refine housed.insert rfl hash.symm ?_ packed
    intro b occupied
    obtain ⟨row, column⟩ := housed.inside _ b occupied
    exact htabSearch_none absent row column occupied

/-! ### Removals at the end of the rows -/

/-- No surviving entry of a row lies above a doomed one. -/
def TailOnly (t : Htab) (doomed : RtuFilteringEntry → Bool) : Prop :=
  ∀ h < htabEntries, ∀ b < rtuBuckets - 1,
    doomed (t h b) = true → t.Valid h (b + 1) → doomed (t h (b + 1)) = true

instance (t : Htab) (doomed : RtuFilteringEntry → Bool) : Decidable (TailOnly t doomed) :=
  inferInstanceAs (Decidable (∀ h < htabEntries, ∀ b < rtuBuckets - 1, _ → _ → _))

/-- The operation only removes entries from the ends of their rows. -/
def TailRemoval (m : SwState) (op : FdOp) : Prop := TailOnly (scannedHtab m op) (fdDoomed m op)

instance (m : SwState) (op : FdOp) : Decidable (TailRemoval m op) :=
  inferInstanceAs (Decidable (TailOnly _ _))

/-- Only entries are removed. -/
theorem fdDoomed_valid (m : SwState) (op : FdOp) (ent : RtuFilteringEntry)
    (chosen : fdDoomed m op ent = true) : ent.valid ≠ 0 := by
  cases op with
  | create => exact absurd chosen Bool.false_ne_true
  | remove mac portMask type => exact (of_decide_eq_true chosen).1
  | clear destPort type => exact (of_decide_eq_true chosen).1
  | flush bitmap t₁ t₂ => exact (of_decide_eq_true chosen).1

/-- Erasing the last entries of the rows one by one, each row from its end. -/
private theorem eraseAll_eq (ijs : List (Nat × Nat)) (t : Htab) (packed : Packed t)
    (falling : ijs.Pairwise fun a b => a.1 = b.1 → b.2 < a.2)
    (occupied : ∀ ij ∈ ijs, t.Valid ij.1 ij.2)
    (closed : ∀ ij ∈ ijs, ∀ b, ij.2 < b → t.Valid ij.1 b → (ij.1, b) ∈ ijs) :
    ijs.foldl (fun t ij => t.erase ⟨ij.1, ij.2⟩) t =
      fun h b => if (h, b) ∈ ijs then .zero else t h b := by
  induction ijs generalizing t with
  | nil => simp only [List.foldl_nil, List.not_mem_nil, if_false]
  | cons ij ijs ih =>
    obtain ⟨i, j⟩ := ij
    obtain ⟨above, falling⟩ := List.pairwise_cons.mp falling
    have distinct : (i, j) ∉ ijs := fun again => Nat.lt_irrefl j (above (i, j) again rfl)
    -- the slots fall, so the one erased is the last of its row
    have last : htabCountBuckets t i ≤ j + 1 := by
      by_contra more
      have next : t.Valid i (j + 1) := (packed.valid_iff i (j + 1)).mpr (by omega)
      have listed := closed (i, j) List.mem_cons_self (j + 1) j.lt_succ_self next
      rcases List.mem_cons.mp listed with same | later
      · have := congrArg Prod.snd same
        omega
      · have := above (i, j + 1) later rfl
        omega
    have remains {h b : Nat} : (t.set i j .zero).Valid h b → t.Valid h b := by
      intro held
      by_cases here : h = i ∧ b = j
      · obtain ⟨rfl, rfl⟩ := here
        exact absurd held (not_valid_zero (set_self t h b .zero))
      · rw [Htab.Valid, set_other _ here] at held
        exact held
    rw [List.foldl_cons, erase_last last, ih (t.set i j .zero) (packed.clear last) falling]
    · funext h b
      by_cases here : h = i ∧ b = j
      · obtain ⟨rfl, rfl⟩ := here
        rw [if_neg distinct, set_self, if_pos List.mem_cons_self]
      · rw [set_other _ here]
        refine if_congr ?_ rfl rfl
        rw [List.mem_cons, Prod.mk.injEq]
        exact ⟨.inr, fun either => either.resolve_left here⟩
    · intro kl mem
      have other : ¬(kl.1 = i ∧ kl.2 = j) := by
        rintro ⟨row, column⟩
        exact distinct (by rw [← row, ← column]; exact mem)
      rw [Htab.Valid, set_other _ other]
      exact occupied kl (List.mem_cons_of_mem _ mem)
    · intro kl mem b higher held
      rcases List.mem_cons.mp (closed kl (List.mem_cons_of_mem _ mem) b higher (remains held)) with
        same | later
      · rw [Prod.mk.injEq] at same
        rw [same.1, same.2] at held
        exact absurd held (not_valid_zero (set_self t i j .zero))
      · exact later

/-- A sweep that only takes the ends of the rows removes exactly the doomed entries. -/
theorem sweptHtab_eq {hashPoly : Word} {t : Htab} (housed : Housed hashPoly t)
    {doomed : RtuFilteringEntry → Bool} (occupied : ∀ ent, doomed ent = true → ent.valid ≠ 0)
    (tail : TailOnly t doomed) :
    sweptHtab t doomed = fun h b => if doomed (t h b) = true then .zero else t h b := by
  have listed (h b : Nat) : (h, b) ∈ slots.reverse.filter (fun ij => doomed (t ij.1 ij.2)) ↔
      doomed (t h b) = true := by
    rw [List.mem_filter, List.mem_reverse, mem_slots]
    refine ⟨And.right, fun chosen => ⟨?_, chosen⟩⟩
    exact housed.inside h b (occupied _ chosen)
  -- what is doomed is the upper end of its row
  have upward (h b k : Nat) (chosen : doomed (t h b) = true) (next : t.Valid h (b + k)) :
      doomed (t h (b + k)) = true := by
    induction k with
    | zero => exact chosen
    | succ k ih =>
      have bound := housed.inside h (b + k + 1) next
      have below : t.Valid h (b + k) := housed.down h (b + k) bound.2 next
      refine tail h bound.1 (b + k) ?_ (ih below) next
      have := bound.2
      omega
  have requests : removalReqs t doomed =
      (slots.reverse.filter fun ij => doomed (t ij.1 ij.2)).map fun ij =>
        ⟨.remove, ⟨ij.1, ij.2⟩, ij⟩ := by
    refine List.map_congr_left ?_
    intro ij mem
    rw [housed.own ij.1 ij.2 (occupied _ (List.mem_filter.mp mem).2)]
  unfold sweptHtab commitHtab
  rw [requests, List.foldl_map]
  refine (eraseAll_eq _ t housed.toPacked (slots_reverse_falling.filter _) ?_ ?_).trans ?_
  · intro ij mem
    exact occupied _ (List.mem_filter.mp mem).2
  · intro ij mem b higher held
    obtain ⟨k, rfl⟩ := Nat.exists_eq_add_of_lt higher
    exact (listed _ _).mpr (upward ij.1 ij.2 (k + 1) (List.mem_filter.mp mem).2 held)
  · funext h b
    exact if_congr (listed h b) rfl rfl

/-- The entries after an operation that only takes the ends of the rows. -/
theorem fdHtab_of_tail {m : SwState} (housed : Housed m.hashPoly m.rtuHtab) {op : FdOp}
    (tail : TailRemoval m op) (removing : fdHtab m op =
      sweptHtab (scannedHtab m op) (fdDoomed m op)) :
    fdHtab m op = fun h b => if fdDoomed m op (scannedHtab m op h b) = true then .zero
      else scannedHtab m op h b := by
  rw [removing]
  exact sweptHtab_eq (housed.congr (scannedHtab_sameKeys m op)) (fdDoomed_valid m op) tail

/-- Every operation that removes the last entries of rows only keeps the entries housed. -/
theorem Housed.step {m : SwState} (housed : Housed m.hashPoly m.rtuHtab) {op : FdOp}
    (tail : TailRemoval m op) : Housed m.hashPoly (fdHtab m op) := by
  have scanned := housed.congr (scannedHtab_sameKeys m op)
  have swept (removing : fdHtab m op = sweptHtab (scannedHtab m op) (fdDoomed m op)) :
      Housed m.hashPoly (fdHtab m op) := by
    rw [fdHtab_of_tail housed tail removing]
    refine scanned.blank_some (fun h b => fdDoomed m op (scannedHtab m op h b) = true) ?_
    intro h b bound chosen next
    exact tail h (scanned.inside h (b + 1) next).1 b (Nat.lt_sub_of_add_lt bound) chosen next
  cases op with
  | create mac vid portMask dynamic atExistingEntry now =>
    exact housed.create mac vid portMask dynamic atExistingEntry now
  | remove mac portMask type => exact swept rfl
  | clear destPort type => exact swept rfl
  | flush bitmap t₁ t₂ => exact swept rfl

/-! ### Runs -/

private theorem run_housed (m : SwState) (ops : List FdOp) (housed : Housed m.hashPoly m.rtuHtab)
    (along : Along TailRemoval fdSwStep m ops) :
    Housed (run fdSwStep m ops).hashPoly (run fdSwStep m ops).rtuHtab :=
  run_invariant (fun m => Housed m.hashPoly m.rtuHtab) TailRemoval fdSwStep
    (fun _ _ housed tail => housed.step tail) m ops housed along

/-- Every state of an admitted run from the cleared database keeps its entries at home. -/
theorem cleanFd_housed (s₀ : RtuState) (ops : List FdOp) (idle : s₀.hwReqList = [])
    (along : Along (fun s op => TailRemoval s.toSwState op) fdStep (cleanFd s₀) ops) :
    Housed (run fdStep (cleanFd s₀) ops).hashPoly (run fdStep (cleanFd s₀) ops).rtuHtab := by
  rw [along_toSwState TailRemoval _ _ (cleanFd_idle s₀ idle), cleanFd_toSwState] at along
  rw [run_toSwState _ _ (cleanFd_idle s₀ idle), cleanFd_toSwState]
  exact run_housed _ ops (housed_zero _) along

/-- Two addresses whose hash is the same row under the CRC-CCITT polynomial. -/
def macA : Mac := ⟨0x02, 0, 0, 0, 0x00, 0x01⟩
def macB : Mac := ⟨0x02, 0, 0, 0, 0x02, 0x21⟩

/-- Learn both addresses, one on port 0 and one on port 1. -/
def learnBoth : List FdOp :=
  [.create macA 0 1 rtuEntryTypeDynamic overrideExisting 0,
   .create macB 0 2 rtuEntryTypeDynamic overrideExisting 0]

/-- Then remove the one that lies last in the row, or the one that lies first. -/
def removeLast : List FdOp := learnBoth ++ [.remove macB 2 rtuEntryTypeDynamic]
def removeFirst : List FdOp := learnBoth ++ [.remove macA 1 rtuEntryTypeDynamic]

theorem removeLast_along :
    Along (fun s op => TailRemoval s.toSwState op) fdStep (cleanFd firstStartState)
      removeLast := by
  rw [along_toSwState TailRemoval _ _ (cleanFd_idle _ rfl), cleanFd_toSwState]
  decide +kernel

/-- From the cleared database on, the representation invariant holds after every run whose
removals only take the last entries of their rows. -/
theorem fd_rep_invariant (s₀ : RtuState) (ops : List FdOp) (idle : s₀.hwReqList = [])
    (along : Along (fun s op => TailRemoval s.toSwState op) fdStep (cleanFd s₀) ops) :
    RepInvariant (run fdStep (cleanFd s₀) ops).hashPoly (run fdStep (cleanFd s₀) ops).rtuHtab :=
  (cleanFd_housed s₀ ops idle along).rep

/-- Removing the entry learned last keeps the invariant. -/
theorem fd_rep_invariant_last : RepInvariant
    (run fdStep (cleanFd firstStartState) removeLast).hashPoly
    (run fdStep (cleanFd firstStartState) removeLast).rtuHtab :=
  fd_rep_invariant firstStartState _ rfl removeLast_along

/-- Removing the entry learned first leaves the other one in two slots. -/
theorem fd_rep_invariant_broken : ¬RepInvariant
    (run fdStep (cleanFd firstStartState) removeFirst).hashPoly
    (run fdStep (cleanFd firstStartState) removeFirst).rtuHtab := by
  rw [run_toSwState _ _ (cleanFd_idle _ rfl), cleanFd_toSwState]
  intro rep
  have copied : let t := (run fdSwStep firstStart removeFirst).rtuHtab
      t 95 0 = t 95 1 ∧ t.Valid 95 1 := by
    decide +kernel
  exact rep.distinct (by decide) (by decide) (by decide) Nat.zero_ne_one copied.2 copied.1

end WrSwitch.Rtu
