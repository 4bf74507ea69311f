import WrSwitch.Rtu.Refinement

/-!
# Aging

Compacting a row leaves its last entry twice. But the scan takes the slots of a row from the
last to the first, so what is left in a row are copies of the entries that were to stay, and
one flush removes exactly the entries that are too old.
-/
namespace WrSwitch.Rtu

open Machine

/-! ### Sweeping a table -/

/-- The table `t'` on the way from `t`, when the entries in the slots `done` are erased. -/
structure Swept (t : Htab) (done : Nat → Nat → Prop) (t' : Htab) : Prop where
  down : ∀ h < htabEntries, IsPrefix (t'.Valid h) rtuBuckets
  origin : ∀ h < htabEntries, ∀ b < rtuBuckets, t'.Valid h b →
    ∃ c, b ≤ c ∧ c < rtuBuckets ∧ ¬done h c ∧ t' h b = t h c
  kept : ∀ h < htabEntries, ∀ c < rtuBuckets, t.Valid h c → ¬done h c →
    ∃ b < rtuBuckets, t' h b = t h c
  low : ∀ h b, (∀ c, done h c → b < c) → t' h b = t h b

variable {hashPoly : Word} {t t' : Htab} {done : Nat → Nat → Prop}

/-- Before the sweep nothing is removed. -/
theorem Swept.start (rep : RepInvariant hashPoly t) : Swept t (fun _ _ => False) t where
  down := fun h row b bound occupied => rep.packed h row (b + 1) bound b b.le_succ occupied
  origin := fun _ _ b bound _ => ⟨b, le_rfl, bound, id, rfl⟩
  kept := fun _ _ c bound _ _ => ⟨c, bound, rfl⟩
  low := fun _ _ _ => rfl

/-- Slots of other rows do not change, nor those below the erased one. -/
theorem erase_below {addr : RtuAddr} {h b : Nat} (other : h = addr.hash → b < addr.bucket) :
    t'.erase addr h b = t' h b := by
  by_cases row : h = addr.hash
  · subst row
    have below := other rfl
    rw [Htab.erase, if_pos rfl, compactRow]
    dsimp only
    split
    · dsimp only
      rw [if_neg (by omega), if_neg (by omega)]
    · dsimp only
      rw [if_neg (by omega)]
  · exact erase_other row b

/-- An entry is erased before those below it in its row. -/
theorem Swept.erase (rep : RepInvariant hashPoly t) (swept : Swept t done t') {i j : Nat}
    (row : i < htabEntries) (column : j < rtuBuckets) (occupied : t.Valid i j)
    (first : ∀ c, done i c → j < c) :
    Swept t (fun h c => done h c ∨ h = i ∧ c = j) (t'.erase ⟨i, j⟩) := by
  have here : t' i j = t i j := swept.low i j first
  have prefixed := swept.down i row
  have counted {b : Nat} (bound : b < rtuBuckets) :
      t'.Valid i b ↔ b < htabCountBuckets t' i := prefixed.iff_lt_count bound
  have size := htabCountBuckets_le t' i
  have inside : j < htabCountBuckets t' i := by
    rw [← counted column, Htab.Valid, here]
    exact occupied
  -- the contents of the row after the erasure, by the slot they came from
  have source {b : Nat} (bound : b < rtuBuckets) (held : (t'.erase ⟨i, j⟩).Valid i b) :
      ∃ c, b ≤ c ∧ c < rtuBuckets ∧ c ≠ j ∧ t'.Valid i c ∧ t'.erase ⟨i, j⟩ i b = t' i c := by
    by_cases above : j + 1 < htabCountBuckets t' i
    · have moved := @erase_shift _ ⟨i, j⟩ above b
      dsimp only at moved
      rw [Htab.Valid, moved] at held
      by_cases shifted : j ≤ b ∧ b + 1 < htabCountBuckets t' i
      · rw [if_pos shifted] at held moved
        exact ⟨b + 1, by omega, by omega, by omega, held, moved⟩
      · rw [if_neg shifted] at held moved
        have below := (counted bound).mp held
        exact ⟨b, le_rfl, bound, by omega, held, moved⟩
    · have cleared := congrFun (congrFun (@erase_last _ ⟨i, j⟩ (not_lt.mp above)) i) b
      rw [Htab.Valid, cleared] at held
      by_cases same : b = j
      · subst same
        rw [set_self] at held
        exact absurd rfl held
      · rw [set_other _ fun eq => same eq.2] at held cleared
        exact ⟨b, le_rfl, bound, same, held, cleared⟩
  have target {c : Nat} (bound : c < rtuBuckets) (held : t'.Valid i c) (other : c ≠ j) :
      ∃ b < rtuBuckets, t'.erase ⟨i, j⟩ i b = t' i c := by
    rcases Nat.lt_or_gt_of_ne other with below | behind
    · exact ⟨c, bound, erase_below fun _ => below⟩
    · -- the entry has moved one slot down
      have last := (counted bound).mp held
      obtain ⟨k, rfl⟩ := Nat.exists_eq_add_one_of_ne_zero (Nat.ne_zero_of_lt behind)
      have moved := @erase_shift t' ⟨i, j⟩ (by dsimp only; omega) k
      dsimp only at moved
      rw [if_pos (by omega)] at moved
      exact ⟨k, by omega, moved⟩
  constructor
  · intro h rowH b bound held
    by_cases same : h = i
    · subst same
      obtain ⟨c, above, inRow, other, valid, -⟩ := source (by omega) held
      have lower : t'.Valid h b := prefixed.down (by omega) inRow valid
      have one : t'.Valid h (b + 1) := prefixed.down (by omega) inRow valid
      have last := (counted (by omega)).mp one
      by_cases below : b < j
      · rwa [Htab.Valid, erase_below fun _ => below]
      · have moved := @erase_shift t' ⟨h, j⟩ (by dsimp only; omega) b
        dsimp only at moved
        rw [if_pos (by omega)] at moved
        rwa [Htab.Valid, moved]
    · rw [Htab.Valid, erase_below fun eq => absurd eq same] at held ⊢
      exact swept.down h rowH b bound held
  · intro h rowH b bound held
    by_cases same : h = i
    · subst same
      obtain ⟨c, above, inRow, other, valid, equal⟩ := source bound held
      obtain ⟨d, higher, inRow', remains, entry⟩ := swept.origin h rowH c inRow valid
      refine ⟨d, by omega, inRow', ?_, equal.trans entry⟩
      rintro (erased | ⟨-, rfl⟩)
      · exact remains erased
      · -- below the erased slot every entry is in its own slot
        have own : t' h c = t h c := swept.low h c fun e gone => by
          have := first e gone
          omega
        have differ : c ≠ d := other
        exact rep.distinct rowH inRow inRow' differ occupied (own.symm.trans entry)
    · have still : (t'.erase ⟨i, j⟩) h b = t' h b := erase_below fun eq => absurd eq same
      rw [Htab.Valid, still] at held
      obtain ⟨c, above, inRow, remains, entry⟩ := swept.origin h rowH b bound held
      refine ⟨c, above, inRow, ?_, still.trans entry⟩
      rintro (erased | ⟨eq, -⟩)
      · exact remains erased
      · exact same eq
  · intro h rowH c bound held remains
    rw [not_or] at remains
    obtain ⟨b, inRow, entry⟩ := swept.kept h rowH c bound held remains.1
    by_cases same : h = i
    · subst same
      have valid : t'.Valid h b := by
        rw [Htab.Valid, entry]
        exact held
      have other : b ≠ j := by
        rintro rfl
        have differ : b ≠ c := fun eq => remains.2 ⟨rfl, eq.symm⟩
        exact rep.distinct rowH inRow bound differ held (here.symm.trans entry)
      obtain ⟨b', inRow', equal⟩ := target inRow valid other
      exact ⟨b', inRow', equal.trans entry⟩
    · exact ⟨b, inRow, (erase_below fun eq => absurd eq same).trans entry⟩
  · intro h b below
    rw [erase_below fun eq => below j (.inr ⟨eq, rfl⟩)]
    exact swept.low h b fun c erased => below c (.inl erased)

private theorem Swept.eraseAll (rep : RepInvariant hashPoly t) (ijs : List (Nat × Nat))
    (swept : Swept t done t') (falling : ijs.Pairwise fun a b => a.1 = b.1 → b.2 < a.2)
    (inside : ∀ ij ∈ ijs, ij.1 < htabEntries ∧ ij.2 < rtuBuckets ∧ t.Valid ij.1 ij.2)
    (first : ∀ ij ∈ ijs, ∀ c, done ij.1 c → ij.2 < c) :
    Swept t (fun h c => done h c ∨ (h, c) ∈ ijs)
      (ijs.foldl (fun t ij => t.erase ⟨ij.1, ij.2⟩) t') := by
  induction ijs generalizing t' done with
  | nil => simpa using swept
  | cons ij ijs ih =>
    obtain ⟨above, falling⟩ := List.pairwise_cons.mp falling
    obtain ⟨row, column, occupied⟩ := inside ij List.mem_cons_self
    have step := swept.erase rep row column occupied (first ij List.mem_cons_self)
    have rest := ih step falling (fun kl member => inside kl (List.mem_cons_of_mem _ member)) ?_
    · refine Eq.mp (congrArg (fun p => Swept t p _) ?_) rest
      funext h c
      simp only [List.mem_cons, or_assoc, Prod.ext_iff]
    · rintro kl member c (erased | ⟨sameRow, rfl⟩)
      · exact first kl (List.mem_cons_of_mem _ member) c erased
      · exact above kl member sameRow.symm

/-- A sweep leaves the entries that are not doomed, and nothing else. -/
theorem sweptHtab_entries (rep : RepInvariant hashPoly t) {doomed : RtuFilteringEntry → Bool}
    (occupied : ∀ ent, doomed ent = true → ent.valid ≠ 0) {h : Nat} (row : h < htabEntries)
    {ent : RtuFilteringEntry} (filled : ent.valid ≠ 0) :
    (∃ b < rtuBuckets, sweptHtab t doomed h b = ent) ↔
      ∃ b < rtuBuckets, t h b = ent ∧ doomed ent = false := by
  -- the requests come from the last slot to the first
  let ijs := slots.reverse.filter fun ij => doomed (t ij.1 ij.2)
  have listed (b : Nat) (bound : b < rtuBuckets) : (h, b) ∈ ijs ↔ doomed (t h b) = true := by
    rw [List.mem_filter, List.mem_reverse, mem_slots]
    exact and_iff_right ⟨row, bound⟩
  have inside : ∀ ij ∈ ijs, ij.1 < htabEntries ∧ ij.2 < rtuBuckets ∧ t.Valid ij.1 ij.2 := by
    intro ij member
    obtain ⟨slot, chosen⟩ := List.mem_filter.mp member
    rw [List.mem_reverse, mem_slots] at slot
    exact ⟨slot.1, slot.2, occupied _ chosen⟩
  have requests : removalReqs t doomed = ijs.map fun ij => ⟨.remove, ⟨ij.1, ij.2⟩, ij⟩ := by
    apply List.map_congr_left
    intro ij member
    obtain ⟨rowIj, column, valid⟩ := inside ij member
    rw [(rep.placed ij.1 rowIj ij.2 column valid).2]
  have result : sweptHtab t doomed = ijs.foldl (fun t ij => t.erase ⟨ij.1, ij.2⟩) t := by
    rw [sweptHtab, requests, commitHtab, List.foldl_map]
    rfl
  -- each erasure moves only entries of its row, behind its slot
  have swept := (Swept.start rep).eraseAll rep ijs (slots_reverse_falling.filter _) inside
    fun _ _ _ impossible => impossible.elim
  rw [← result] at swept
  constructor
  · rintro ⟨b, bound, rfl⟩
    obtain ⟨c, -, column, remains, entry⟩ := swept.origin h row b bound filled
    refine ⟨c, column, entry.symm, ?_⟩
    rw [entry]
    exact Bool.eq_false_iff.mpr fun chosen => remains (.inr ((listed c column).mpr chosen))
  · rintro ⟨c, column, rfl, spared⟩
    refine swept.kept h row c column filled ?_
    rintro (impossible | erased)
    · exact impossible
    · exact Bool.false_ne_true (spared.symm.trans ((listed c column).mp erased))

/-! ### Old entries -/

/-- The comparison of clock values, which wrap. -/
theorem timeAfter_iff {now last aging : Word} (passed : (now - last).toNat < 2 ^ 31)
    (positive : aging.toNat < 2 ^ 31) :
    timeAfter (now - aging) last = true ↔ aging.toNat < (now - last).toNat := by
  have difference : last - (now - aging) = aging - (now - last) := by
    apply BitVec.eq_of_toNat_eq
    simp only [BitVec.toNat_sub]
    omega
  rw [timeAfter, difference, BitVec.slt_iff_toInt_lt, BitVec.toInt_eq_toNat_cond,
    BitVec.toNat_sub]
  have bound := (now - last).isLt
  have zero : (0 : Word).toInt = 0 := rfl
  rw [zero]
  split
  · omega
  · omega

/-- A dynamic entry stays if it is not to be removed and its bit is set or it is not too old;
any other entry stays. -/
def Survives (bitmap : Nat → Word) (now agingTime : Word) (h b : Nat) (ent : RtuFilteringEntry) :
    Prop :=
  ent.dynamic = rtuEntryTypeDynamic → ent.forceRemove = 0 ∧
    (agingBit bitmap h b = true ∨ (now - ent.lastAccessT).toNat ≤ agingTime.toNat)

/-- The entry in its slot after the accesses of the last period are recorded. -/
theorem agedEntry_data (bitmap : Nat → Word) (now : Word) {h b : Nat} (row : h < htabEntries)
    (column : b < rtuBuckets) (ent : RtuFilteringEntry) :
    ∃ age, agedEntry bitmap now h b ent = { ent with
      age := age
      lastAccessT := if agingBit bitmap h b = true ∧ ent.dynamic ≠ rtuEntryTypeStatic then now
        else ent.lastAccessT } := by
  rw [agedEntry]
  by_cases bit : agingBit bitmap h b = true
  · rw [if_pos ⟨row, column, bit⟩, ageTouch]
    by_cases static : ent.dynamic = rtuEntryTypeStatic
    · rw [if_pos static, if_neg fun touched => touched.2 static]
      exact ⟨_, rfl⟩
    · rw [if_neg static, if_pos ⟨bit, static⟩]
      exact ⟨_, rfl⟩
  · rw [if_neg fun touched => bit touched.2.2, if_neg fun touched => bit touched.1]
    exact ⟨_, rfl⟩

private theorem ageOut_spares_iff {bitmap : Nat → Word} {t₁ t₂ aging : Word} {h b : Nat}
    (row : h < htabEntries) (column : b < rtuBuckets) {ent : RtuFilteringEntry}
    (occupied : ent.valid ≠ 0) (passed : (t₂ - ent.lastAccessT).toNat < 2 ^ 31)
    (positive : aging.toNat < 2 ^ 31) (elapsed : (t₂ - t₁).toNat ≤ aging.toNat) :
    ageOutCond (t₂ - aging) (agedEntry bitmap t₁ h b ent) = false ↔
      Survives bitmap t₂ aging h b ent := by
  obtain ⟨age, data⟩ := agedEntry_data bitmap t₁ row column ent
  rw [data, Survives, ageOutCond, decide_eq_false_iff_not]
  dsimp only
  -- a static entry is never looked at
  by_cases dynamic : ent.dynamic = rtuEntryTypeDynamic
  · have touched : ent.dynamic ≠ rtuEntryTypeStatic := by
      rw [dynamic]
      exact static_ne_dynamic.symm
    simp only [occupied, dynamic, static_ne_dynamic.symm, ne_eq, not_false_eq_true, true_and,
      and_true, forall_const, not_or, not_not]
    by_cases bit : agingBit bitmap h b = true
    · -- the time since the first reading of the clock is less than the aging time
      simp only [bit, if_true, true_or, and_true]
      have young : ¬timeAfter (t₂ - aging) t₁ = true := by
        rw [timeAfter_iff (by omega) positive]
        omega
      exact and_iff_right young
    · simp only [bit, Bool.false_eq_true, if_false, false_or]
      rw [timeAfter_iff passed positive, not_lt, and_comm]
  · simp only [dynamic, false_and, and_false, not_false_eq_true, false_implies]

/-- The invariant does not look at the other fields of an entry. -/
theorem RepInvariant.congr {hashPoly : Word} {t t' : Htab} (rep : RepInvariant hashPoly t)
    (same : SameKeys t t') : RepInvariant hashPoly t' where
  packed := by
    intro h row b column a below
    rw [same.valid_iff, same.valid_iff]
    exact rep.packed h row b column a below
  unique := by
    intro h row b column h' row' b' column'
    rw [same.valid_iff, same.valid_iff, same.mac, same.mac, same.fid, same.fid]
    exact rep.unique h row b column h' row' b' column'
  placed := by
    intro h row b column
    rw [same.valid_iff, same.mac, same.fid, same.addr]
    exact rep.placed h row b column

private theorem flush_htab (bitmap : Nat → Word) (t₁ t₂ : Word) (s : RtuState)
    (idle : s.hwReqList = []) :
    (rtuFdFlush bitmap t₁ t₂ s).rtuHtab =
      sweptHtab (agedHtab bitmap t₁ s.rtuHtab) (ageOutCond (t₂ - s.agingTime)) := by
  rw [rtuFdFlush, rtuFdAgeOut, rtuFdAgeUpdate_eq,
    sweep_eq _ _ _ (by rw [emitAll_toSwState]; exact idle), emitAll_toSwState]
  simp only [emitAll_toSwState]

/-- After a flush the table has the entries that are static or young enough, in copies that
differ from the entries before at most in the time of the last access. -/
theorem aging_exact (s : RtuState) (bitmap : Nat → Word) (t₁ t₂ : Word)
    (idle : s.hwReqList = []) (rep : RepInvariant s.hashPoly s.rtuHtab)
    (passed : ∀ h < htabEntries, ∀ b < rtuBuckets, s.rtuHtab.Valid h b →
      (t₂ - (s.rtuHtab h b).lastAccessT).toNat < 2 ^ 31)
    (positive : s.agingTime.toNat < 2 ^ 31) (elapsed : (t₂ - t₁).toNat ≤ s.agingTime.toNat) :
    let t' := (rtuFdFlush bitmap t₁ t₂ s).rtuHtab
    (∀ k, (∃ h < htabEntries, ∃ b < rtuBuckets, t'.Valid h b ∧ keyOf (t' h b) = k) ↔
      ∃ h < htabEntries, ∃ b < rtuBuckets, s.rtuHtab.Valid h b ∧ keyOf (s.rtuHtab h b) = k ∧
        Survives bitmap t₂ s.agingTime h b (s.rtuHtab h b)) ∧
    ∀ h < htabEntries, ∀ b < rtuBuckets, t'.Valid h b → ∃ c < rtuBuckets, ∃ age,
      s.rtuHtab.Valid h c ∧ Survives bitmap t₂ s.agingTime h c (s.rtuHtab h c) ∧
      t' h b = { s.rtuHtab h c with
        age := age
        lastAccessT := if agingBit bitmap h c = true ∧
            (s.rtuHtab h c).dynamic ≠ rtuEntryTypeStatic then t₁
          else (s.rtuHtab h c).lastAccessT } := by
  intro t'
  have same := agedHtab_sameKeys bitmap t₁ s.rtuHtab
  -- an entry remains when the sweep does not choose it
  have entries {h : Nat} (row : h < htabEntries) {ent : RtuFilteringEntry}
      (filled : ent.valid ≠ 0) : (∃ b < rtuBuckets, t' h b = ent) ↔
      ∃ b < rtuBuckets, agedHtab bitmap t₁ s.rtuHtab h b = ent ∧
        ageOutCond (t₂ - s.agingTime) ent = false := by
    rw [show t' = _ from flush_htab bitmap t₁ t₂ s idle]
    exact sweptHtab_entries (rep.congr same) (fun _ chosen => (of_decide_eq_true chosen).1) row
      filled
  have spares {h b : Nat} (row : h < htabEntries) (column : b < rtuBuckets)
      (occupied : s.rtuHtab.Valid h b) :
      ageOutCond (t₂ - s.agingTime) (agedHtab bitmap t₁ s.rtuHtab h b) = false ↔
        Survives bitmap t₂ s.agingTime h b (s.rtuHtab h b) :=
    ageOut_spares_iff row column occupied (passed h row b column occupied) positive elapsed
  have survivor {h b : Nat} (row : h < htabEntries) (column : b < rtuBuckets)
      (occupied : t'.Valid h b) : ∃ c < rtuBuckets, s.rtuHtab.Valid h c ∧
        Survives bitmap t₂ s.agingTime h c (s.rtuHtab h c) ∧
        t' h b = agedHtab bitmap t₁ s.rtuHtab h c := by
    obtain ⟨c, inRow, entry, spared⟩ := (entries row occupied).mp ⟨b, column, rfl⟩
    have before : s.rtuHtab.Valid h c := by
      rw [← same.valid_iff, Htab.Valid, entry]
      exact occupied
    rw [← entry] at spared
    exact ⟨c, inRow, before, (spares row inRow before).mp spared, entry.symm⟩
  -- aging touches neither the address nor the filter
  have sameKey (h b : Nat) : keyOf (agedHtab bitmap t₁ s.rtuHtab h b) = keyOf (s.rtuHtab h b) := by
    rw [keyOf, keyOf, same.mac, same.fid]
  constructor
  · intro k
    constructor
    · rintro ⟨h, row, b, column, occupied, rfl⟩
      obtain ⟨c, inRow, before, survives, entry⟩ := survivor row column occupied
      exact ⟨h, row, c, inRow, before, by rw [entry, sameKey], survives⟩
    · rintro ⟨h, row, b, column, occupied, rfl, survives⟩
      have filled : (agedHtab bitmap t₁ s.rtuHtab h b).valid ≠ 0 := (same.valid_iff h b).mpr occupied
      obtain ⟨c, inRow, entry⟩ := (entries row filled).mpr
        ⟨b, column, rfl, (spares row column occupied).mpr survives⟩
      refine ⟨h, row, c, inRow, ?_, ?_⟩
      · rw [Htab.Valid, entry]
        exact filled
      · rw [entry, sameKey]
  · intro h row b column occupied
    obtain ⟨c, inRow, before, survives, entry⟩ := survivor row column occupied
    obtain ⟨age, data⟩ := agedEntry_data bitmap t₁ row inRow (s.rtuHtab h c)
    exact ⟨c, inRow, age, before, survives, entry.trans data⟩

/-- Two entries of the same age in one row. -/
def bothLearnt : RtuState := run fdStep (cleanFd firstStartState) learnBoth

private theorem bothLearnt_idle : bothLearnt.hwReqList = [] := by
  rw [bothLearnt]
  exact run_idle (cleanFd firstStartState) learnBoth (cleanFd_idle firstStartState rfl)

private theorem bothLearnt_memory : bothLearnt.toSwState = run fdSwStep firstStart learnBoth := by
  rw [bothLearnt, run_toSwState _ _ (cleanFd_idle firstStartState rfl), cleanFd_toSwState]
  rfl

private theorem bothLearnt_rep : RepInvariant bothLearnt.hashPoly bothLearnt.rtuHtab := by
  have along := removeLast_along
  rw [removeLast, Along.append] at along
  rw [bothLearnt]
  exact (cleanFd_housed firstStartState learnBoth rfl along.1).rep

/-- The slots 380 and 381 are bits 28 and 29 of their word of the bitmap. -/
def secondOnly : Nat → Word := fun _ => 0xEFFFFFFF

/-- The second entry has its bit set and stays, and the first one is removed. -/
theorem aging_exact_second :
    let t' := (rtuFdFlush secondOnly 1000 1000 bothLearnt).rtuHtab
    (∃ h < htabEntries, ∃ b < rtuBuckets, t'.Valid h b ∧ keyOf (t' h b) = ⟨macB, 0⟩) ∧
      ¬∃ h < htabEntries, ∃ b < rtuBuckets, t'.Valid h b ∧ keyOf (t' h b) = ⟨macA, 0⟩ := by
  have exact_ := aging_exact bothLearnt secondOnly 1000 1000 bothLearnt_idle
    bothLearnt_rep (by rw [bothLearnt_memory]; decide +kernel)
    (by rw [bothLearnt_memory]; decide +kernel) (by rw [bothLearnt_memory]; decide +kernel)
  refine ⟨(exact_.1 ⟨macB, 0⟩).mpr ?_, (exact_.1 ⟨macA, 0⟩).not.mpr ?_⟩
  · rw [bothLearnt_memory]
    have facts :
        let t := (run fdSwStep firstStart learnBoth).rtuHtab
        t.Valid 95 1 ∧ keyOf (t 95 1) = ⟨macB, 0⟩ ∧ (t 95 1).forceRemove = 0 ∧
          agingBit secondOnly 95 1 = true := by
      decide +kernel
    exact ⟨95, by decide, 1, by decide, facts.1, facts.2.1,
      fun _ => ⟨facts.2.2.1, .inl facts.2.2.2⟩⟩
  · rw [bothLearnt_memory]
    -- no slot but (95, 0) has the first address, and its entry is too old
    have gone :
        let m := run fdSwStep firstStart learnBoth
        ∀ h < htabEntries, ∀ b < rtuBuckets, m.rtuHtab.Valid h b →
          keyOf (m.rtuHtab h b) = ⟨macA, 0⟩ →
          (m.rtuHtab h b).dynamic = rtuEntryTypeDynamic ∧ agingBit secondOnly h b = false ∧
            m.agingTime.toNat < ((1000 : Word) - (m.rtuHtab h b).lastAccessT).toNat := by
      decide +kernel
    rintro ⟨h, row, b, column, occupied, key, survives⟩
    obtain ⟨dynamic, unset, old⟩ := gone h row b column occupied key
    obtain ⟨-, touched | young⟩ := survives dynamic
    · rw [unset] at touched
      cases touched
    · exact absurd young (not_le.mpr old)

end WrSwitch.Rtu
