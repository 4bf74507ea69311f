import WrSwitch.Rtu.LearningRuns

/-!
# Stations that move

Between two sweeps the table has every learnt address at the port of its latest request. The
only way to miss one is a full row.
-/
namespace WrSwitch.Rtu

open Machine

/-- The key a request is learnt under, if its VLAN is registered. -/
def requestKey (env : FdEnv) (req : RtuRequest) : Option Key :=
  (env.fidOf (if req.hasVid ≠ 0 then req.vid else 0)).map (⟨req.src, ·⟩)

/-- The port mask of the latest request for a key. -/
def latestMask (env : FdEnv) (k : Key) (rs : List (RtuRequest × Word)) : Option Word :=
  rs.foldl (fun last r => if requestKey env r.1 = some k then some (portBit r.1.portId) else last)
    none

/-- The binding a search finds. -/
@[irreducible] def Htab.lookup (t : Htab) (k : Key) : Option Binding :=
  (htabSearch t k.mac k.fid).map fun ij => bindingOf (t ij.1 ij.2)

/-- What the requests make of the binding of a key, in a table with `count` entries in its row. -/
def Learnt (old new : Option Binding) (latest : Option Word) (count : Nat) : Prop :=
  match old, latest with
  | some ⟨mask, type⟩, some mask' =>
    new = if type = rtuEntryTypeStatic then some ⟨mask, type⟩ else some ⟨mask', rtuEntryTypeDynamic⟩
  | none, some mask' => new = some ⟨mask', rtuEntryTypeDynamic⟩ ∨ new = none ∧ count = rtuBuckets
  | old, none => new = old

private theorem latestMask_concat (env : FdEnv) (k : Key) (rs : List (RtuRequest × Word))
    (r : RtuRequest × Word) : latestMask env k (rs ++ [r]) =
      if requestKey env r.1 = some k then some (portBit r.1.portId) else latestMask env k rs := by
  rw [latestMask, List.foldl_append]
  rfl

/-- Creating entries frees no slot. -/
theorem createHtab_count {m : SwState} (packed : Packed m.rtuHtab) (mac : Mac) (vid : BitVec 16)
    (portMask dynamic : Word) (atExistingEntry : Int) (now : Word) (h : Nat) :
    htabCountBuckets m.rtuHtab h ≤
      htabCountBuckets (createHtab m mac vid portMask dynamic atExistingEntry now) h := by
  have packed' := packed.create mac vid portMask dynamic atExistingEntry now
  unfold createHtab at packed' ⊢
  split
  next => exact Nat.le_refl _
  next => exact Nat.le_refl _
  next i j plan =>
    obtain ⟨_, found, _, _⟩ := createPlan_update plan
    have same := updatedHtab_sameKeys (htabSearch_some found).2.1 portMask dynamic atExistingEntry now
    unfold htabCountBuckets
    simp only [same.valid, le_refl]
  next eaddr plan =>
    rw [plan] at packed'
    obtain ⟨_, _, _, first, _⟩ := createPlan_insert plan
    have one : (1 : Word) ≠ 0 := by decide
    unfold insertedHtab at packed' ⊢
    rw [htabCountBuckets_insert packed ?_ first packed' h]
    · exact Nat.le_add_right _ _
    · exact one

/-- A search in the table is a lookup in the map. -/
theorem Represents.lookup {t : Htab} {A : AbstractMap} (packed : Packed t)
    (represents : Represents t A) (k : Key) : t.lookup k = A k := by
  unfold Htab.lookup
  cases found : htabSearch t k.mac k.fid with
  | none => exact (represents.absent found).symm
  | some ij =>
    obtain ⟨_, occupied, mac, fid⟩ := htabSearch_some found
    have key : keyOf (t ij.1 ij.2) = k := congrArg₂ Key.mk mac fid
    rw [Option.map_some, ← represents.bound packed occupied, key]

/-! ### One request -/

/-- A create leaves every other key alone. -/
theorem AbstractMap.create_other {env : FdEnv} (A : AbstractMap) {mac : Mac} {vid : BitVec 16}
    (portMask dynamic : Word) (atExistingEntry : Int) {k : Key}
    (other : (env.fidOf vid).map (⟨mac, ·⟩) ≠ some k) :
    A.create env mac vid portMask dynamic atExistingEntry k = A k := by
  unfold AbstractMap.create
  cases registered : env.fidOf vid with
  | none => rfl
  | some fid =>
    rw [registered, Option.map_some] at other
    have differ : k ≠ ⟨mac, fid⟩ := fun same => other (congrArg some same.symm)
    dsimp only
    cases A ⟨mac, fid⟩ with
    | some old => exact Function.update_of_ne differ ..
    | none =>
      dsimp only
      split
      · rfl
      · exact Function.update_of_ne differ ..

/-- More entries in a row change nothing of what was learnt. -/
theorem Learnt.mono {old new : Option Binding} {latest : Option Word} {count count' : Nat}
    (learnt : Learnt old new latest count) (grown : count ≤ count') (le : count' ≤ rtuBuckets) :
    Learnt old new latest count' := by
  unfold Learnt at learnt ⊢
  split at learnt
  · exact learnt
  · rcases learnt with bound | ⟨absent, full⟩
    · exact .inl bound
    · exact .inr ⟨absent, by omega⟩
  · exact learnt

/-- One more request for the key. -/
theorem Learnt.again {old new : Option Binding} {latest : Option Word} {count : Nat}
    (learnt : Learnt old new latest count) (mask : Word) {bound : Binding} (held : new = some bound) :
    Learnt old (some (bound.override mask rtuEntryTypeDynamic overrideExistingDynamic)) (some mask)
      count := by
  have fresh (type : Word) (dynamic : type ≠ rtuEntryTypeStatic) (mask' : Word) :
      Binding.override ⟨mask', type⟩ mask rtuEntryTypeDynamic overrideExistingDynamic =
        ⟨mask, rtuEntryTypeDynamic⟩ := by
    simp [Binding.override, dynamic, overrideExistingDynamic, addToExisting]
  have kept (mask' : Word) : Binding.override ⟨mask', rtuEntryTypeStatic⟩ mask rtuEntryTypeDynamic
      overrideExistingDynamic = ⟨mask', rtuEntryTypeStatic⟩ := by
    simp [Binding.override]
  have learned := fresh _ static_ne_dynamic.symm
  subst held
  -- a static binding was there from the start, every other one is or becomes dynamic
  rcases old with _ | ⟨oldMask, type⟩
  · rcases latest with _ | mask'
    · cases learnt
    · rcases learnt with same | ⟨absent, _⟩
      · cases same
        exact .inl (congrArg some (learned mask'))
      · cases absent
  · by_cases static : type = rtuEntryTypeStatic
    · subst static
      have same : bound = ⟨oldMask, rtuEntryTypeStatic⟩ := by
        rcases latest with _ | mask' <;> simpa [Learnt] using learnt
      subst same
      simp [Learnt, kept]
    · rcases latest with _ | mask'
      · have same : bound = ⟨oldMask, type⟩ := by simpa [Learnt] using learnt
        subst same
        simp [Learnt, static, fresh type static]
      · have same : bound = ⟨mask', rtuEntryTypeDynamic⟩ := by simpa [Learnt, static] using learnt
        subst same
        simp [Learnt, static, learned]

/-- The first request for an absent key that finds a free slot. -/
theorem Learnt.first {old : Option Binding} {latest : Option Word} {count : Nat}
    (learnt : Learnt old none latest count) (mask : Word) (count' : Nat) :
    Learnt old (some ⟨mask, rtuEntryTypeDynamic⟩) (some mask) count' := by
  rcases old with _ | ⟨oldMask, type⟩
  · exact .inl rfl
  · rcases latest with _ | mask'
    · cases learnt
    · by_cases static : type = rtuEntryTypeStatic
      · simp [Learnt, static] at learnt
      · simp [Learnt, static] at learnt

/-- The first request for an absent key that finds its row full. -/
theorem Learnt.refused {old : Option Binding} {latest : Option Word} {count : Nat}
    (learnt : Learnt old none latest count) (mask : Word) :
    Learnt old none (some mask) rtuBuckets := by
  rcases old with _ | ⟨oldMask, type⟩
  · exact .inr ⟨rfl, rfl⟩
  · rcases latest with _ | mask'
    · cases learnt
    · by_cases static : type = rtuEntryTypeStatic
      · simp [Learnt, static] at learnt
      · simp [Learnt, static] at learnt

/-- The create of a request, seen on the map. -/
noncomputable def AbstractMap.learn (env : FdEnv) (A : AbstractMap) (req : RtuRequest) : AbstractMap :=
  A.create env req.src (if req.hasVid ≠ 0 then req.vid else 0) (portBit req.portId)
    rtuEntryTypeDynamic overrideExistingDynamic

/-- One request more is learnt. -/
theorem Learnt.step {env : FdEnv} {old : Option Binding} {A : AbstractMap} {k : Key}
    {latest : Option Word} {count count' : Nat} (learnt : Learnt old (A k) latest count)
    (full : A.RowFull env (env.row k) ↔ count = rtuBuckets) (grown : count ≤ count')
    (le : count' ≤ rtuBuckets) (req : RtuRequest) :
    Learnt old (A.learn env req k)
      (if requestKey env req = some k then some (portBit req.portId) else latest) count' := by
  by_cases own : requestKey env req = some k
  · rw [if_pos own]
    obtain ⟨fid, registered, rfl⟩ := Option.map_eq_some_iff.mp own
    unfold AbstractMap.learn AbstractMap.create
    rw [registered]
    dsimp only
    cases held : A ⟨req.src, fid⟩ with
    | some bound =>
      dsimp only
      rw [Function.update_self]
      exact (learnt.again _ held).mono grown le
    | none =>
      rw [held] at learnt
      dsimp only
      split
      next blocked =>
        rw [held]
        have here := full.mp blocked
        -- the row was full before, so it is full now
        have last : count' = rtuBuckets := by omega
        rw [last]
        exact learnt.refused _
      next =>
        rw [Function.update_self]
        exact learnt.first _ _
  · rw [if_neg own, AbstractMap.learn, AbstractMap.create_other _ _ _ _ own]
    exact learnt.mono grown le

/-! ### Runs of requests -/

/-- What the requests so far have made of the table. -/
structure LearntTable (old : SwState) (rs : List (RtuRequest × Word)) (m : SwState) : Prop where
  housed : Housed m.hashPoly m.rtuHtab
  env : m.env = old.env
  learnt : ∀ k, Learnt (old.rtuHtab.lookup k) (m.rtuHtab.lookup k) (latestMask old.env k rs)
    (htabCountBuckets m.rtuHtab (old.env.row k))

/-- Nothing is learnt yet. -/
theorem LearntTable.start {m : SwState} (housed : Housed m.hashPoly m.rtuHtab) :
    LearntTable m [] m where
  housed := housed
  env := rfl
  learnt := by
    intro k
    rw [latestMask, List.foldl_nil]
    cases m.rtuHtab.lookup k <;> rfl

/-- The table after the create of a request. -/
def SwState.learn (m : SwState) (r : RtuRequest × Word) : SwState :=
  { m with
    rtuHtab := createHtab m r.1.src (if r.1.hasVid ≠ 0 then r.1.vid else 0)
      (portBit r.1.portId) rtuEntryTypeDynamic overrideExistingDynamic r.2 }

private theorem learnOp_toSwState {s : RtuState} (idle : s.hwReqList = []) (r : RtuRequest × Word) :
    (rtudStep s (learnOp r.1 r.2)).toSwState = s.toSwState.learn r := by
  rw [learnOp, rtudStep, fdStep_toSwState _ _ idle]
  rfl

private theorem LearntTable.concat {old m : SwState} {rs : List (RtuRequest × Word)}
    (table : LearntTable old rs m) (r : RtuRequest × Word) :
    LearntTable old (rs ++ [r]) (m.learn r) := by
  -- one step of the table is one step of the map, and the map is judged key by key
  obtain ⟨A, represents⟩ := table.housed.represents
  have housed := table.housed.create r.1.src (if r.1.hasVid ≠ 0 then r.1.vid else 0)
    (portBit r.1.portId) rtuEntryTypeDynamic overrideExistingDynamic r.2
  have represented := represents.create table.housed r.1.src
    (if r.1.hasVid ≠ 0 then r.1.vid else 0) (portBit r.1.portId) rtuEntryTypeDynamic
    overrideExistingDynamic r.2
  have grown := createHtab_count table.housed.toPacked r.1.src
    (if r.1.hasVid ≠ 0 then r.1.vid else 0) (portBit r.1.portId) rtuEntryTypeDynamic
    overrideExistingDynamic r.2
  unfold SwState.learn
  generalize createHtab m r.1.src (if r.1.hasVid ≠ 0 then r.1.vid else 0) (portBit r.1.portId)
    rtuEntryTypeDynamic overrideExistingDynamic r.2 = t at housed represented grown ⊢
  refine ⟨housed, table.env, ?_⟩
  intro k
  have learnt := table.learnt k
  rw [represents.lookup table.housed.toPacked] at learnt
  rw [latestMask_concat, represented.lookup housed.toPacked, ← AbstractMap.learn, table.env]
  refine learnt.step ?_ (grown _) (htabCountBuckets_le ..) r.1
  unfold AbstractMap.RowFull
  rw [← table.env, rowKeys_ncard table.housed represents]
  have le := htabCountBuckets_le m.rtuHtab (m.env.row k)
  omega

/-- After any number of requests each learnt address is at the port of its latest request,
unless the address is bound for good, or was never learnt and finds its row full. -/
theorem latest_port_wins (s : RtuState) (rs : List (RtuRequest × Word))
    (idle : s.hwReqList = []) (housed : Housed s.hashPoly s.rtuHtab) :
    let t := run rtudStep s (rs.map fun r => learnOp r.1 r.2)
    Housed t.hashPoly t.rtuHtab ∧ ∀ k,
      Learnt (s.rtuHtab.lookup k) (t.rtuHtab.lookup k) (latestMask s.env k rs)
        (htabCountBuckets t.rtuHtab (rtuHash s.hashPoly k.mac k.fid)) := by
  have kept : (run rtudStep s (rs.map fun r => learnOp r.1 r.2)).hwReqList = [] ∧
      LearntTable s.toSwState rs (run rtudStep s (rs.map fun r => learnOp r.1 r.2)).toSwState := by
    induction rs using List.reverseRecOn with
    | nil => exact ⟨idle, .start housed⟩
    | append_singleton rs r ih =>
      obtain ⟨waiting, table⟩ := ih
      rw [List.map_append, List.map_singleton, run_concat, learnOp_toSwState waiting]
      exact ⟨waiting, table.concat r⟩
  exact ⟨kept.2.housed, kept.2.learnt⟩

/-- A station seen at port 1 and then at port 4 of a switch that has just started. -/
theorem latest_port_wins_moved :
    let s := cleanFd firstStartState
    let t := run rtudStep s ([(⟨1, macA, bcastMac, 0, 0, 0, 0⟩, 10),
      (⟨4, macA, macB, 0, 0, 0, 0⟩, 20)].map fun r => learnOp r.1 r.2)
    Housed t.hashPoly t.rtuHtab ∧ ∀ k,
      Learnt (s.rtuHtab.lookup k) (t.rtuHtab.lookup k) (latestMask s.env k
          [(⟨1, macA, bcastMac, 0, 0, 0, 0⟩, 10), (⟨4, macA, macB, 0, 0, 0, 0⟩, 20)])
        (htabCountBuckets t.rtuHtab (rtuHash s.hashPoly k.mac k.fid)) := by
  apply latest_port_wins
  · exact cleanFd_idle firstStartState rfl
  · rw [cleanFd_toSwState]
    exact housed_zero _

end WrSwitch.Rtu
