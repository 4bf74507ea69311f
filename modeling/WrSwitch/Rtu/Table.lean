import WrSwitch.Rtu.FilterDb
import Mathlib.Data.List.Nodup

/-!
# What the operations do to the table

One lemma for each operation gives the memory after it in terms of the memory before
it, with the queue of requests already replayed. Later modules use these and do not
unfold the operations.
-/
namespace WrSwitch.Rtu

open Machine

theorem mem_slots (ij : Nat × Nat) : ij ∈ slots ↔ ij.1 < htabEntries ∧ ij.2 < rtuBuckets := by
  obtain ⟨i, j⟩ := ij
  simp only [slots, List.mem_flatMap, List.mem_map, List.mem_range, Prod.mk.injEq]
  constructor
  · rintro ⟨a, ha, b, hb, rfl, rfl⟩
    exact ⟨ha, hb⟩
  · rintro ⟨hi, hj⟩
    exact ⟨i, hi, j, hj, rfl, rfl⟩

/-- The scan from the last slot to the first meets the slots of a row in falling order. -/
theorem slots_reverse_falling :
    slots.reverse.Pairwise fun a b => a.1 = b.1 → b.2 < a.2 := by
  rw [List.pairwise_reverse, slots, List.pairwise_flatMap]
  constructor
  · intro i _
    rw [List.pairwise_map]
    apply List.pairwise_lt_range.imp
    intro a b below _
    exact below
  · apply List.pairwise_lt_range.imp
    intro i k below x hx y hy equal
    obtain ⟨a, _, rfl⟩ := List.mem_map.mp hx
    obtain ⟨b, _, rfl⟩ := List.mem_map.mp hy
    exact absurd equal.symm (Nat.ne_of_lt below)

/-! ### Commit -/

@[simp] theorem rtuWriteHtabEntry_toSwState (zbtAddr : Nat) (ent : RtuFilteringEntry)
    (flush : Bool) (s : RtuState) :
    (rtuWriteHtabEntry zbtAddr ent flush s).toSwState = s.toSwState := by
  rw [rtuWriteHtabEntry_eq, emitAll_toSwState]

/-- The bursts of `delete_htab_entry`: the `n` first slots of the row, one flush at the end. -/
def rowEvents (t : Htab) (hash n : Nat) : List Event :=
  (List.range n).flatMap fun i =>
    burstEvents (toMemAddr ⟨hash, i⟩) (macEntryWords (t hash i)) (decide (i + 1 = n))

private theorem deleteHtabEntry_eq (addr : RtuAddr) (s : RtuState) :
    deleteHtabEntry addr s = RtuState.emitAll { s with rtuHtab := s.rtuHtab.erase addr }
      (rowEvents (s.rtuHtab.erase addr) addr.hash (htabCountBuckets s.rtuHtab addr.hash)) := by
  unfold deleteHtabEntry rowEvents
  dsimp only
  rw [foldl_emitAll_of _ (fun m i => burstEvents (toMemAddr ⟨addr.hash, i⟩)
    (macEntryWords (m.rtuHtab addr.hash i))
    (decide (i + 1 = htabCountBuckets s.rtuHtab addr.hash)))
    (fun s i => rtuWriteHtabEntry_eq _ _ _ s)]

/-- The table after one request, and the accesses the request issues. -/
def commitReq (t : Htab) (req : HwReq) : Htab :=
  match req.type with
  | .write => t
  | .remove => t.erase req.addr

def commitReqEvents (t : Htab) (req : HwReq) : List Event :=
  match req.type with
  | .write => burstEvents (toMemAddr req.addr)
      (macEntryWords (t req.entryPtr.1 req.entryPtr.2)) true
  | .remove => rowEvents (t.erase req.addr) req.addr.hash (htabCountBuckets t req.addr.hash)

private theorem rtuHwCommitReq_eq (s : RtuState) (req : HwReq) :
    rtuHwCommitReq s req = RtuState.emitAll { s with rtuHtab := commitReq s.rtuHtab req }
      (commitReqEvents s.rtuHtab req) := by
  unfold rtuHwCommitReq commitReq commitReqEvents
  cases req.type with
  | write => exact rtuWriteHtabEntry_eq _ _ _ s
  | remove => exact deleteHtabEntry_eq req.addr s

def commitHtab (t : Htab) (reqs : List HwReq) : Htab := reqs.foldl commitReq t

/-- The accesses of a whole request list, each request seeing the table the earlier ones left. -/
def commitEvents : Htab → List HwReq → List Event
  | _, [] => []
  | t, req :: reqs => commitReqEvents t req ++ commitEvents (commitReq t req) reqs

private theorem rtuHwCommit_eq (reqs : List HwReq) (s : RtuState) :
    reqs.foldl rtuHwCommitReq s =
      RtuState.emitAll { s with rtuHtab := commitHtab s.rtuHtab reqs }
        (commitEvents s.rtuHtab reqs) := by
  induction reqs generalizing s with
  | nil => rfl
  | cons req reqs ih =>
    rw [List.foldl_cons, ih, rtuHwCommitReq_eq, commitEvents, commitHtab, commitHtab,
      List.foldl_cons]
    simp only [emitAll_eq, List.foldl_append, List.append_assoc]

/-- A commit as a new table and a log. -/
theorem rtuFdCommit_eq (s : RtuState) :
    rtuFdCommit s = RtuState.emitAll
      { s with rtuHtab := commitHtab s.rtuHtab s.hwReqList, hwReqList := [] }
      (commitEvents s.rtuHtab s.hwReqList) := by
  unfold rtuFdCommit rtuHwCommit
  split
  next empty =>
    rw [empty]
    simp only [commitHtab, commitEvents, List.foldl_nil, emitAll_nil]
    rw [← empty]
  next => rw [rtuHwCommit_eq, emitAll_eq, emitAll_eq]

private theorem rtuFdCommit_idle (s : RtuState) (idle : s.hwReqList = []) : rtuFdCommit s = s :=
  if_pos idle

private theorem rtuFdCommit_single (s : RtuState) (req : HwReq) (idle : s.hwReqList = []) :
    rtuFdCommit { s with hwReqList := s.hwReqList ++ [req] } =
      RtuState.emitAll { s with rtuHtab := commitReq s.rtuHtab req }
        (commitReqEvents s.rtuHtab req) := by
  rw [rtuFdCommit_eq]
  simp only [idle, List.nil_append, commitHtab, List.foldl_cons, List.foldl_nil, commitEvents,
    List.append_nil]

/-! ### Creating -/

/-- What `rtu_fd_create_entry` decides to do. -/
inductive CreatePlan
  | keep
  | full
  | update (i j : Nat)
  | insert (eaddr : RtuAddr)
deriving DecidableEq

def createPlan (m : SwState) (mac : Mac) (vid : BitVec 16) (portMask dynamic : Word)
    (atExistingEntry : Int) : CreatePlan :=
  let vlan := m.vlanTab vid.toNat
  if vlan.drop = 0 then
    match htabSearch m.rtuHtab mac vlan.fid with
    | some (i, j) =>
      let ent := m.rtuHtab i j
      if atExistingEntry = overrideExistingDynamic ∧ ent.dynamic = rtuEntryTypeStatic ∧
          dynamic = rtuEntryTypeDynamic then .keep
      else if ent.portMaskDst ≠ updatedMask atExistingEntry portMask ent ∨
          ent.portMaskSrc ≠ 0xFFFFFFFF ∨ ent.dynamic ≠ dynamic then .update i j
      else .keep
    | none =>
      let hash := rtuHash m.hashPoly mac vlan.fid
      let nBuckets := htabCountBuckets m.rtuHtab hash
      if nBuckets = rtuBuckets then .full else .insert ⟨hash, nBuckets⟩
  else .keep

/-- The table after an update of slot `(i, j)`. -/
def updatedHtab (t : Htab) (i j : Nat) (portMask dynamic : Word) (atExistingEntry : Int)
    (now : Word) : Htab :=
  t.set i j { t i j with
    portMaskDst := updatedMask atExistingEntry portMask (t i j), portMaskSrc := 0xFFFFFFFF,
    dynamic := dynamic, lastAccessT := now }

/-- The table after an insertion at `eaddr`. -/
def insertedHtab (t : Htab) (mac : Mac) (fid : Byte) (eaddr : RtuAddr)
    (portMask dynamic now : Word) : Htab :=
  t.set eaddr.hash eaddr.bucket { t eaddr.hash eaddr.bucket with
    addr := eaddr, valid := 1, fid := fid, portMaskDst := portMask, portMaskSrc := 0xFFFFFFFF,
    dynamic := dynamic, lastAccessT := now, mac := mac }

def createHtab (m : SwState) (mac : Mac) (vid : BitVec 16) (portMask dynamic : Word)
    (atExistingEntry : Int) (now : Word) : Htab :=
  match createPlan m mac vid portMask dynamic atExistingEntry with
  | .keep | .full => m.rtuHtab
  | .update i j => updatedHtab m.rtuHtab i j portMask dynamic atExistingEntry now
  | .insert eaddr =>
    insertedHtab m.rtuHtab mac (m.vlanTab vid.toNat).fid eaddr portMask dynamic now

/-- An update is written through the address stored in the entry. -/
def createEvents (m : SwState) (mac : Mac) (vid : BitVec 16) (portMask dynamic : Word)
    (atExistingEntry : Int) (now : Word) : List Event :=
  let t := createHtab m mac vid portMask dynamic atExistingEntry now
  .index .vlanTab vid.toNat ::
  match createPlan m mac vid portMask dynamic atExistingEntry with
  | .keep | .full => []
  | .update i j => burstEvents (toMemAddr (m.rtuHtab i j).addr) (macEntryWords (t i j)) true
  | .insert eaddr =>
    burstEvents (toMemAddr eaddr) (macEntryWords (t eaddr.hash eaddr.bucket)) true

private theorem rtuFdCommit_fdInsertEntry (mac : Mac) (fid : Byte) (eaddr : RtuAddr)
    (portMask dynamic now : Word) (s : RtuState) (idle : s.hwReqList = []) :
    rtuFdCommit (fdInsertEntry mac fid eaddr portMask dynamic now s) =
      RtuState.emitAll
        { s with rtuHtab := insertedHtab s.rtuHtab mac fid eaddr portMask dynamic now }
        (burstEvents (toMemAddr eaddr) (macEntryWords
          (insertedHtab s.rtuHtab mac fid eaddr portMask dynamic now eaddr.hash eaddr.bucket))
          true) :=
  rtuFdCommit_single (setEntry _ _ _ s) _ idle

private theorem rtuFdCommit_fdUpdateEntry (i j : Nat) (portMask dynamic : Word)
    (atExistingEntry : Int) (now : Word) (s : RtuState) (idle : s.hwReqList = [])
    (open_ : ¬(atExistingEntry = overrideExistingDynamic ∧
      (s.rtuHtab i j).dynamic = rtuEntryTypeStatic ∧ dynamic = rtuEntryTypeDynamic))
    (changed : (s.rtuHtab i j).portMaskDst ≠ updatedMask atExistingEntry portMask (s.rtuHtab i j) ∨
      (s.rtuHtab i j).portMaskSrc ≠ 0xFFFFFFFF ∨ (s.rtuHtab i j).dynamic ≠ dynamic) :
    rtuFdCommit (fdUpdateEntry i j portMask dynamic atExistingEntry now s) =
      RtuState.emitAll
        { s with rtuHtab := updatedHtab s.rtuHtab i j portMask dynamic atExistingEntry now }
        (burstEvents (toMemAddr (s.rtuHtab i j).addr) (macEntryWords
          (updatedHtab s.rtuHtab i j portMask dynamic atExistingEntry now i j)) true) := by
  unfold fdUpdateEntry
  dsimp only
  rw [if_neg open_, if_pos changed]
  exact rtuFdCommit_single (setEntry _ _ _ s) _ idle

/-- What `rtu_fd_create_entry` does under each plan. -/
theorem rtuFdCreateEntry_plan (mac : Mac) (vid : BitVec 16) (portMask dynamic : Word)
    (atExistingEntry : Int) (now : Word) (s : RtuState) (idle : s.hwReqList = []) :
    rtuFdCreateEntry mac vid portMask dynamic atExistingEntry now s =
      let s' := s.emit (.index .vlanTab vid.toNat)
      match createPlan s'.toSwState mac vid portMask dynamic atExistingEntry with
      | .keep => (0, s')
      | .full => (-enomem, s')
      | .update i j =>
        (0, rtuFdCommit (fdUpdateEntry i j portMask dynamic atExistingEntry now s'))
      | .insert eaddr =>
        (0, rtuFdCommit (fdInsertEntry mac (s'.vlanTab vid.toNat).fid eaddr portMask dynamic now
          s')) := by
  have waiting : (s.emit (.index .vlanTab vid.toNat)).hwReqList = [] := idle
  unfold rtuFdCreateEntry
  dsimp only
  generalize s.emit (.index .vlanTab vid.toNat) = s' at waiting ⊢
  by_cases registered : (s'.vlanTab vid.toNat).drop = 0
  · simp only [createPlan, if_pos registered]
    -- the search decides between inserting and updating
    cases htabSearch s'.rtuHtab mac (s'.vlanTab vid.toNat).fid with
    | none =>
      dsimp only
      split <;> rfl
    | some ij =>
      obtain ⟨i, j⟩ := ij
      dsimp only
      unfold fdUpdateEntry
      dsimp only
      by_cases kept : atExistingEntry = overrideExistingDynamic ∧
          (s'.rtuHtab i j).dynamic = rtuEntryTypeStatic ∧ dynamic = rtuEntryTypeDynamic
      · simp only [if_pos kept, rtuFdCommit_idle s' waiting]
      · simp only [if_neg kept]
        split
        next changed => simp only [if_neg kept, if_pos changed]
        next => rw [rtuFdCommit_idle s' waiting]
  · simp only [createPlan, if_neg registered, rtuFdCommit_idle s' waiting]

/-- When an entry is updated: it exists and the request may change it. -/
theorem createPlan_update {m : SwState} {mac : Mac} {vid : BitVec 16} {portMask dynamic : Word}
    {atExistingEntry : Int} {i j : Nat}
    (plan : createPlan m mac vid portMask dynamic atExistingEntry = .update i j) :
    (m.vlanTab vid.toNat).drop = 0 ∧
    htabSearch m.rtuHtab mac (m.vlanTab vid.toNat).fid = some (i, j) ∧
    ¬(atExistingEntry = overrideExistingDynamic ∧
      (m.rtuHtab i j).dynamic = rtuEntryTypeStatic ∧ dynamic = rtuEntryTypeDynamic) ∧
    ((m.rtuHtab i j).portMaskDst ≠ updatedMask atExistingEntry portMask (m.rtuHtab i j) ∨
      (m.rtuHtab i j).portMaskSrc ≠ 0xFFFFFFFF ∨ (m.rtuHtab i j).dynamic ≠ dynamic) := by
  unfold createPlan at plan
  dsimp only at plan
  split at plan
  next registered =>
    split at plan
    next i' j' found =>
      split at plan
      next => cases plan
      next opened =>
        split at plan
        next changed =>
          cases plan
          exact ⟨registered, found, opened, changed⟩
        next => cases plan
    next => split at plan <;> cases plan
  next => cases plan

/-- When an entry is kept as it is: the VLAN drops, a static entry must not be overridden, or there is
nothing to change. -/
theorem createPlan_keep {m : SwState} {mac : Mac} {vid : BitVec 16} {portMask dynamic : Word}
    {atExistingEntry : Int} (plan : createPlan m mac vid portMask dynamic atExistingEntry = .keep) :
    (m.vlanTab vid.toNat).drop ≠ 0 ∨ (m.vlanTab vid.toNat).drop = 0 ∧
      ∃ i j, htabSearch m.rtuHtab mac (m.vlanTab vid.toNat).fid = some (i, j) ∧
        (atExistingEntry = overrideExistingDynamic ∧
            (m.rtuHtab i j).dynamic = rtuEntryTypeStatic ∧ dynamic = rtuEntryTypeDynamic ∨
          ¬(atExistingEntry = overrideExistingDynamic ∧
            (m.rtuHtab i j).dynamic = rtuEntryTypeStatic ∧ dynamic = rtuEntryTypeDynamic) ∧
          (m.rtuHtab i j).portMaskDst = updatedMask atExistingEntry portMask (m.rtuHtab i j) ∧
          (m.rtuHtab i j).dynamic = dynamic) := by
  unfold createPlan at plan
  dsimp only at plan
  split at plan
  next registered =>
    refine .inr ⟨registered, ?_⟩
    split at plan
    next i j found =>
      refine ⟨i, j, found, ?_⟩
      split at plan
      next kept => exact .inl kept
      next opened =>
        split at plan
        next => cases plan
        next unchanged =>
          rw [not_or, not_or, not_not, not_not, not_not] at unchanged
          exact .inr ⟨opened, unchanged.1, unchanged.2.2⟩
    next => split at plan <;> cases plan
  next dropped => exact .inl dropped

/-- When there is no room: the entry is new and its row is full. -/
theorem createPlan_full {m : SwState} {mac : Mac} {vid : BitVec 16} {portMask dynamic : Word}
    {atExistingEntry : Int} (plan : createPlan m mac vid portMask dynamic atExistingEntry = .full) :
    (m.vlanTab vid.toNat).drop = 0 ∧
    htabSearch m.rtuHtab mac (m.vlanTab vid.toNat).fid = none ∧
    htabCountBuckets m.rtuHtab (rtuHash m.hashPoly mac (m.vlanTab vid.toNat).fid) = rtuBuckets := by
  unfold createPlan at plan
  dsimp only at plan
  split at plan
  next registered =>
    split at plan
    next =>
      split at plan
      next => cases plan
      next => split at plan <;> cases plan
    next absent =>
      split at plan
      next full => exact ⟨registered, absent, full⟩
      next => cases plan
  next => cases plan

/-- When an entry is inserted: it is new, and goes behind the last one of its row. -/
theorem createPlan_insert {m : SwState} {mac : Mac} {vid : BitVec 16} {portMask dynamic : Word}
    {atExistingEntry : Int} {eaddr : RtuAddr}
    (plan : createPlan m mac vid portMask dynamic atExistingEntry = .insert eaddr) :
    (m.vlanTab vid.toNat).drop = 0 ∧
    htabSearch m.rtuHtab mac (m.vlanTab vid.toNat).fid = none ∧
    eaddr.hash = rtuHash m.hashPoly mac (m.vlanTab vid.toNat).fid ∧
    eaddr.bucket = htabCountBuckets m.rtuHtab eaddr.hash ∧ eaddr.bucket ≠ rtuBuckets := by
  unfold createPlan at plan
  dsimp only at plan
  split at plan
  next registered =>
    split at plan
    next =>
      split at plan
      next => cases plan
      next => split at plan <;> cases plan
    next found =>
      split at plan
      next => cases plan
      next room =>
        cases plan
        exact ⟨registered, found, rfl, rfl, room⟩
  next => cases plan

/-- Creating an entry as a new table and a log. -/
theorem rtuFdCreateEntry_eq (mac : Mac) (vid : BitVec 16) (portMask dynamic : Word)
    (atExistingEntry : Int) (now : Word) (s : RtuState) (idle : s.hwReqList = []) :
    rtuFdCreateEntry mac vid portMask dynamic atExistingEntry now s =
      (if createPlan s.toSwState mac vid portMask dynamic atExistingEntry = .full then -enomem
        else 0,
       RtuState.emitAll
        { s with rtuHtab := createHtab s.toSwState mac vid portMask dynamic atExistingEntry now }
        (createEvents s.toSwState mac vid portMask dynamic atExistingEntry now)) := by
  have waiting : (s.emit (.index .vlanTab vid.toNat)).hwReqList = [] := idle
  rw [rtuFdCreateEntry_plan mac vid portMask dynamic atExistingEntry now s idle]
  unfold createEvents createHtab
  dsimp only [emit_toSwState]
  cases plan : createPlan s.toSwState mac vid portMask dynamic atExistingEntry with
  | keep => rfl
  | full => rfl
  | update i j =>
    -- an update is only planned when something changes
    obtain ⟨_, _, opened, changed⟩ := createPlan_update plan
    exact Prod.ext rfl (rtuFdCommit_fdUpdateEntry i j portMask dynamic atExistingEntry now _
      waiting opened changed)
  | insert eaddr =>
    exact Prod.ext rfl (rtuFdCommit_fdInsertEntry mac _ eaddr portMask dynamic now _ waiting)

/-! ### Removing -/

/-- The requests the scan queues, in the order of the scan. -/
def removalReqs (t : Htab) (doomed : RtuFilteringEntry → Bool) : List HwReq :=
  (slots.reverse.filter fun ij => doomed (t ij.1 ij.2)).map fun ij =>
    ⟨.remove, (t ij.1 ij.2).addr, ij⟩

/-- The shifts the scan evaluates. -/
def scanEvents (t : Htab) (logged : RtuFilteringEntry → List Event) : List Event :=
  slots.reverse.flatMap fun ij => logged (t ij.1 ij.2)

private theorem scanSlot_eq (logged : RtuFilteringEntry → List Event)
    (doomed : RtuFilteringEntry → Bool) (s : RtuState) (ij : Nat × Nat) :
    scanSlot logged doomed s ij =
      RtuState.emitAll
        { s with
          hwReqList := s.hwReqList ++
            if doomed (s.rtuHtab ij.1 ij.2) then [⟨.remove, (s.rtuHtab ij.1 ij.2).addr, ij⟩]
            else [] }
        (logged (s.rtuHtab ij.1 ij.2)) := by
  unfold scanSlot
  dsimp only
  rw [emitAll_eq, emitAll_eq]
  split
  next => rfl
  next => rw [List.append_nil]

private theorem scan_eq (logged : RtuFilteringEntry → List Event)
    (doomed : RtuFilteringEntry → Bool) (ijs : List (Nat × Nat)) (s : RtuState) :
    ijs.foldl (scanSlot logged doomed) s =
      RtuState.emitAll
        { s with
          hwReqList := s.hwReqList ++
            (ijs.filter fun ij => doomed (s.rtuHtab ij.1 ij.2)).map fun ij =>
              ⟨.remove, (s.rtuHtab ij.1 ij.2).addr, ij⟩ }
        (ijs.flatMap fun ij => logged (s.rtuHtab ij.1 ij.2)) := by
  induction ijs generalizing s with
  | nil =>
    simp only [List.foldl_nil, List.filter_nil, List.map_nil, List.append_nil, List.flatMap_nil,
      emitAll_nil]
  | cons ij ijs ih =>
    rw [List.foldl_cons, ih, scanSlot_eq]
    simp only [emitAll_eq, List.foldl_append, List.append_assoc, List.flatMap_cons,
      List.filter_cons]
    split
    next => rfl
    next => rfl

/-- Queueing removals as a list of requests and a log. -/
theorem queueRemovals_eq (logged : RtuFilteringEntry → List Event)
    (doomed : RtuFilteringEntry → Bool) (s : RtuState) :
    queueRemovals logged doomed s =
      RtuState.emitAll { s with hwReqList := s.hwReqList ++ removalReqs s.rtuHtab doomed }
        (scanEvents s.rtuHtab logged) :=
  scan_eq logged doomed slots.reverse s

/-- The table after a scan and the commit of what it queued. -/
def sweptHtab (t : Htab) (doomed : RtuFilteringEntry → Bool) : Htab :=
  commitHtab t (removalReqs t doomed)

def sweepEvents (t : Htab) (logged : RtuFilteringEntry → List Event)
    (doomed : RtuFilteringEntry → Bool) : List Event :=
  scanEvents t logged ++ commitEvents t (removalReqs t doomed)

/-- A sweep as a new table and a log. -/
theorem sweep_eq (logged : RtuFilteringEntry → List Event) (doomed : RtuFilteringEntry → Bool)
    (s : RtuState) (idle : s.hwReqList = []) :
    rtuFdCommit (queueRemovals logged doomed s) =
      RtuState.emitAll { s with rtuHtab := sweptHtab s.rtuHtab doomed }
        (sweepEvents s.rtuHtab logged doomed) := by
  rw [rtuFdCommit_eq, queueRemovals_eq]
  simp only [emitAll_eq, idle, List.nil_append, sweptHtab, sweepEvents, List.foldl_append,
    List.append_assoc]

/-! ### Aging -/

/-- The bit of the aging bitmap that belongs to slot `(hash, bucket)`. -/
def agingBit (bitmap : Nat → Word) (hash bucket : Nat) : Bool :=
  (bitmap ((hash * 4 + bucket) / 32)).getLsbD ((hash * 4 + bucket) % 32)

/-- The entry of slot `(hash, bucket)` after `rtu_fd_age_update`. -/
def agedEntry (bitmap : Nat → Word) (t : Word) (hash bucket : Nat) (ent : RtuFilteringEntry) :
    RtuFilteringEntry :=
  if hash < htabEntries ∧ bucket < rtuBuckets ∧ agingBit bitmap hash bucket = true then
    ageTouch t ent
  else ent

def agedHtab (bitmap : Nat → Word) (t : Word) (tab : Htab) : Htab :=
  fun h b => agedEntry bitmap t h b (tab h b)

/-- The slot a bit of the bitmap stands for. -/
private def bitSlot (ij : Nat × Nat) : Nat × Nat := ((ij.1 * 32 + ij.2) / 4, (ij.1 * 32 + ij.2) % 4)

private def ageTableBit (bitmap : Nat → Word) (t : Word) (tab : Htab) (ij : Nat × Nat) : Htab :=
  if (bitmap ij.1).getLsbD ij.2 then
    tab.set (bitSlot ij).1 (bitSlot ij).2 (ageTouch t (tab (bitSlot ij).1 (bitSlot ij).2))
  else tab

private theorem ageUpdateBit_eq (bitmap : Nat → Word) (t : Word) (s : RtuState) (ij : Nat × Nat)
    (bound : ij.2 < 32) :
    ageUpdateBit bitmap t s ij = { s with rtuHtab := ageTableBit bitmap t s.rtuHtab ij } := by
  have position : (ij.1 <<< 5) ||| ij.2 = ij.1 * 32 + ij.2 := by
    rw [← Nat.shiftLeft_add_eq_or_of_lt bound, Nat.shiftLeft_eq]
  have column (n : Nat) : n &&& 3 = n % 4 := Nat.and_two_pow_sub_one_eq_mod n 2
  have row (n : Nat) : n >>> 2 = n / 4 := Nat.shiftRight_eq_div_pow n 2
  unfold ageUpdateBit ageTableBit bitSlot
  dsimp only
  rw [position, column, row]
  split <;> rfl

private theorem ageLoop_eq (bitmap : Nat → Word) (t : Word) (ijs : List (Nat × Nat))
    (bound : ∀ ij ∈ ijs, ij.2 < 32) (s : RtuState) :
    ijs.foldl (ageUpdateBit bitmap t) s =
      { s with rtuHtab := ijs.foldl (ageTableBit bitmap t) s.rtuHtab } := by
  induction ijs generalizing s with
  | nil => rfl
  | cons ij ijs ih =>
    rw [List.foldl_cons, ih (fun k hk => bound k (List.mem_cons_of_mem _ hk)),
      ageUpdateBit_eq bitmap t s ij (bound ij List.mem_cons_self), List.foldl_cons]

/-- A loop that changes every slot at most once leaves each slot with its own change. -/
private theorem ageLoop_apply (bitmap : Nat → Word) (t : Word) (ijs : List (Nat × Nat))
    (bound : ∀ ij ∈ ijs, ij.2 < 32) (once : ijs.Nodup) (tab : Htab) (h b : Nat) :
    ijs.foldl (ageTableBit bitmap t) tab h b =
      if b < 4 ∧ ((h * 4 + b) / 32, (h * 4 + b) % 32) ∈ ijs ∧ agingBit bitmap h b = true then
        ageTouch t (tab h b)
      else tab h b := by
  induction ijs generalizing tab with
  | nil => simp only [List.foldl_nil, List.not_mem_nil, false_and, and_false, if_false]
  | cons ij ijs ih =>
    have inside := bound ij List.mem_cons_self
    have fresh : ij ∉ ijs := (List.nodup_cons.mp once).1
    -- the bit that this turn looks at is the one of the slot
    have own : (h = (bitSlot ij).1 ∧ b = (bitSlot ij).2) ↔
        b < 4 ∧ ((h * 4 + b) / 32, (h * 4 + b) % 32) = ij := by
      unfold bitSlot
      rw [Prod.ext_iff]
      dsimp only
      omega
    rw [List.foldl_cons, ih (fun k hk => bound k (List.mem_cons_of_mem _ hk)) once.of_cons]
    by_cases here : b < 4 ∧ ((h * 4 + b) / 32, (h * 4 + b) % 32) = ij
    · obtain ⟨row, column⟩ := own.mpr here
      have bit : (bitmap ij.1).getLsbD ij.2 = agingBit bitmap h b := by
        rw [← here.2, agingBit]
      unfold ageTableBit
      simp only [here.2, fresh, false_and, and_false, if_false, List.mem_cons_self, here.1,
        true_and, bit]
      split
      next => simp only [Htab.set, ← row, ← column, and_self, if_true]
      next => rfl
    · have same : ageTableBit bitmap t tab ij h b = tab h b := by
        unfold ageTableBit
        split
        next => exact if_neg fun eq => here (own.mp eq)
        next => rfl
      rw [same]
      refine if_congr ?_ rfl rfl
      rw [List.mem_cons]
      constructor
      · rintro ⟨low, listed, set⟩
        exact ⟨low, .inr listed, set⟩
      · rintro ⟨low, first | listed, set⟩
        · exact absurd ⟨low, first⟩ here
        · exact ⟨low, listed, set⟩

/-- The update of the times as a new table and a log. -/
theorem rtuFdAgeUpdate_eq (bitmap : Nat → Word) (t : Word) (s : RtuState) :
    rtuFdAgeUpdate bitmap t s =
      RtuState.emitAll { s with rtuHtab := agedHtab bitmap t s.rtuHtab }
        ((List.range (rtuEntries / 32)).flatMap fun i => [.wr (.aram i) 0]) := by
  -- the loop visits every bit of the bitmap once
  have once : agingBits.Nodup := by
    unfold agingBits
    rw [List.nodup_flatMap]
    refine ⟨fun i _ => List.nodup_range.map (Prod.mk_right_injective i), ?_⟩
    refine List.nodup_range.imp ?_
    intro i k different x left right
    obtain ⟨_, _, rfl⟩ := List.mem_map.mp left
    obtain ⟨_, _, equal⟩ := List.mem_map.mp right
    exact different (congrArg Prod.fst equal).symm
  have listed (i j : Nat) : (i, j) ∈ agingBits ↔ i < 64 ∧ j < 32 := by
    simp only [agingBits, List.mem_flatMap, List.mem_map, List.mem_range, Prod.mk.injEq]
    constructor
    · rintro ⟨a, ha, b, hb, rfl, rfl⟩
      exact ⟨ha, hb⟩
    · rintro ⟨hi, hj⟩
      exact ⟨i, hi, j, hj, rfl, rfl⟩
  have bound : ∀ ij ∈ agingBits, ij.2 < 32 := fun ij mem => ((listed ij.1 ij.2).mp mem).2
  have aged (tab : Htab) : agingBits.foldl (ageTableBit bitmap t) tab = agedHtab bitmap t tab := by
    funext h b
    rw [ageLoop_apply bitmap t agingBits bound once]
    unfold agedHtab agedEntry
    refine if_congr ?_ rfl rfl
    rw [listed, htabEntries_eq, rtuBuckets_eq]
    constructor
    · rintro ⟨low, ⟨word, _⟩, set⟩
      exact ⟨by omega, low, set⟩
    · rintro ⟨row, low, set⟩
      exact ⟨low, ⟨by omega, by omega⟩, set⟩
  unfold rtuFdAgeUpdate
  rw [ageLoop_eq bitmap t agingBits bound, rtuReadAgingBitmap_eq]
  simp only [emitAll_eq, aged]

/-! ### One operation -/

/-- The table a removing operation scans, and the entries it dooms there. -/
def scannedHtab (m : SwState) : FdOp → Htab
  | .flush bitmap t₁ _ => agedHtab bitmap t₁ m.rtuHtab
  | .create .. | .remove .. | .clear .. => m.rtuHtab

def fdDoomed (m : SwState) : FdOp → RtuFilteringEntry → Bool
  | .create .. => fun _ => false
  | .remove mac portMask type => removeCond mac portMask type
  | .clear destPort type => clearCond destPort type
  | .flush _ _ t₂ => ageOutCond (t₂ - m.agingTime)

def fdHtab (m : SwState) : FdOp → Htab
  | .create mac vid portMask dynamic atExistingEntry now =>
    createHtab m mac vid portMask dynamic atExistingEntry now
  | op => sweptHtab (scannedHtab m op) (fdDoomed m op)

def fdEvents (m : SwState) : FdOp → List Event
  | .create mac vid portMask dynamic atExistingEntry now =>
    createEvents m mac vid portMask dynamic atExistingEntry now
  | .remove mac portMask type => sweepEvents m.rtuHtab (fun _ => []) (removeCond mac portMask type)
  | .clear destPort type =>
    sweepEvents m.rtuHtab
      (fun ent => if ent.valid ≠ 0 ∧ ent.dynamic = type then [.shift destPort] else [])
      (clearCond destPort type)
  | .flush bitmap t₁ t₂ =>
    ((List.range (rtuEntries / 32)).flatMap fun i => [.wr (.aram i) 0]) ++
      sweepEvents (agedHtab bitmap t₁ m.rtuHtab) (fun _ => []) (ageOutCond (t₂ - m.agingTime))

/-- Between operations the request list is empty, so an operation is a change of the
table followed by its accesses. -/
theorem fdStep_eq (s : RtuState) (op : FdOp) (idle : s.hwReqList = []) :
    fdStep s op = RtuState.emitAll { s with rtuHtab := fdHtab s.toSwState op }
      (fdEvents s.toSwState op) := by
  unfold fdStep fdHtab fdEvents scannedHtab fdDoomed
  cases op with
  | create mac vid portMask dynamic atExistingEntry now =>
    dsimp only
    rw [rtuFdCreateEntry_eq mac vid portMask dynamic atExistingEntry now s idle]
  | remove mac portMask type =>
    dsimp only
    unfold rtuFdRemoveEntry
    dsimp only
    rw [sweep_eq _ _ s idle]
  | clear destPort type =>
    dsimp only
    unfold rtuFdClearEntriesForPort
    exact sweep_eq _ _ s idle
  | flush bitmap t₁ t₂ =>
    dsimp only
    unfold rtuFdFlush rtuFdAgeOut
    -- the bitmap is read first, and the sweep sees the times it set
    rw [rtuFdAgeUpdate_eq, sweep_eq _ _ _ (by rw [emitAll_toSwState]; exact idle)]
    simp only [emitAll_eq, List.foldl_append, List.append_assoc]

/-- The same step on the memory alone. -/
def fdSwStep (m : SwState) (op : FdOp) : SwState := { m with rtuHtab := fdHtab m op }

@[simp] theorem fdStep_toSwState (s : RtuState) (op : FdOp) (idle : s.hwReqList = []) :
    (fdStep s op).toSwState = fdSwStep s.toSwState op := by
  rw [fdStep_eq s op idle, emitAll_toSwState]
  rfl

/-- The memory runs without the hardware. -/
theorem run_toSwState (s : RtuState) (ops : List FdOp) (idle : s.hwReqList = []) :
    (run fdStep s ops).toSwState = run fdSwStep s.toSwState ops := by
  induction ops generalizing s with
  | nil => rfl
  | cons op ops ih =>
    have moved := fdStep_toSwState s op idle
    rw [run_cons, run_cons, ← moved]
    refine ih (fdStep s op) ?_
    rw [moved]
    exact idle

/-- A side condition on the memory may be checked on the memory alone. -/
theorem along_toSwState (ok : SwState → FdOp → Prop) (s : RtuState) (ops : List FdOp)
    (idle : s.hwReqList = []) :
    Along (fun s op => ok s.toSwState op) fdStep s ops ↔ Along ok fdSwStep s.toSwState ops := by
  induction ops generalizing s with
  | nil => exact Iff.rfl
  | cons op ops ih =>
    have moved := fdStep_toSwState s op idle
    refine and_congr Iff.rfl ?_
    rw [ih (fdStep s op) (by rw [moved]; exact idle), moved]

/-- No request is left in the list. -/
theorem run_idle (s : RtuState) (ops : List FdOp) (idle : s.hwReqList = []) :
    (run fdStep s ops).hwReqList = [] := by
  refine run_preserves (fun s => s.hwReqList = []) fdStep ?_ s ops idle
  intro s op waiting
  rw [fdStep_toSwState s op waiting]
  exact waiting

/-- Cleaning empties the table. -/
theorem cleanFd_toSwState (s : RtuState) :
    (cleanFd s).toSwState = { s.toSwState with rtuHtab := fun _ _ => .zero } := by
  unfold cleanFd
  rw [rtuCleanHtab_eq, emitAll_toSwState]

/-- Cleaning leaves no request in the list. -/
theorem cleanFd_idle (s₀ : RtuState) (idle : s₀.hwReqList = []) :
    (cleanFd s₀).hwReqList = [] := by
  rw [cleanFd_toSwState]
  exact idle

end WrSwitch.Rtu
