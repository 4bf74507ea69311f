import Mathlib.Algebra.BigOperators.Intervals
import Mathlib.Algebra.Order.BigOperators.Group.Finset
import Mathlib.Tactic.Ring
import WrSwitch.Sdb.Library

/-!
# Scans that end inside the image

The counts and the pointers of a scan come from the image. They fit it where every record that a
directory counts is inside it, and so is the directory of every bridge that is not too deep to be
entered. Such a scan ends, also where a directory is its own child.
-/
namespace WrSwitch.Sdb

/-! ### Images that fit -/

/-- What an `int` can address. -/
def intReach : Nat := 2 ^ 31

/-- A record is inside the image. -/
def Inside (dev : Device) (pos : Word) : Prop :=
  pos.toNat + recordSize ≤ dev.image.length ∧ pos.toNat + recordSize ≤ intReach

instance (dev : Device) (pos : Word) : Decidable (Inside dev pos) :=
  inferInstanceAs (Decidable (_ ∧ _))

/-- The position of a record of an array. -/
def entryPos (first : Word) (k : Nat) : Word := first + BitVec.ofNat 32 (k * recordSize)

/-- The methods do what is asked of them inside the image. -/
structure Methods.Sound (methods : Methods) : Prop where
  read (image : List Byte) (offset count : Nat) (inside : offset + count ≤ image.length) :
    methods.read image offset count = ((image.drop offset).take count, (count : Int))
  write (image : List Byte) (offset : Nat) (buf : List Byte) (count : Nat)
    (inside : offset + count ≤ image.length) (filled : count ≤ buf.length) :
    methods.write image offset buf count =
      (image.take offset ++ buf.take count ++ image.drop (offset + count), (count : Int))

/-- The record at a position inside the image. -/
def recordAt (dev : Device) (pos : Word) : Record :=
  let raw := (dev.image.drop pos.toNat).take recordSize
  if dev.convert32 then swapWords raw else raw

/-- A bridge leads to a directory that fits. `levels` is how many directories can be entered one
in another from here. -/
def BridgeFits (dev : Device) : Nat → Word → Record → Prop
  | 0, _, _ => True
  | levels + 1, base, r => isBridge r →
    let child := base + BitVec.ofNat 32 (sdbChild r)
    let head := recordAt dev child
    Inside dev child ∧ (isDirectory head → 1 ≤ sdbRecords head ∧
      ∀ k < sdbRecords head - 1,
        Inside dev (entryPos child (k + 1)) ∧
          BridgeFits dev levels (base + BitVec.ofNat 32 (addrFirst r))
            (recordAt dev (entryPos child (k + 1))))

/-- The entries of a directory fit, of which `left` are still to be read. -/
def EntriesFit (dev : Device) (levels : Nat) (base first : Word) (left : Int) : Prop :=
  0 ≤ left ∧ ∀ k : Nat, (k : Int) < left → Inside dev (entryPos first k) ∧
    BridgeFits dev levels base (recordAt dev (entryPos first k))

/-- How many directories can be entered from one of the given depth. -/
def levelsBelow (depth : Nat) : Nat := sdbfsDepth - 1 - depth

/-- All directories on the path fit. -/
def PathFits (fs : Sdbfs) : Prop :=
  fs.depth < sdbfsDepth ∧ ∀ d ≤ fs.depth,
    EntriesFit fs.dev (levelsBelow d) (fs.base d) (fs.this d) (fs.nleft d)

/-- What is left of a scan fits the image. -/
def Remaining (fs : Sdbfs) : Prop :=
  PathFits fs ∧ ∃ r, fs.currentp = some r ∧
    BridgeFits fs.dev (levelsBelow fs.depth) (fs.base fs.depth) r

/-- A new scan fits the image. Where the first record is no directory, nothing is left of an old
scan. -/
def RootFits (fs : Sdbfs) : Prop :=
  let head := recordAt fs.dev fs.dev.entrypoint
  Inside fs.dev fs.dev.entrypoint ∧
    if isDirectory head then
      EntriesFit fs.dev (levelsBelow 0) 0 (entryPos fs.dev.entrypoint 1) (sdbRecords head - 1)
    else fs.nleft 0 = 0 ∧ BridgeFits fs.dev (levelsBelow 0) 0 head

/-! ### Arrays of records -/

private theorem entryPos_zero (first : Word) : entryPos first 0 = first := by
  simp [entryPos]

private theorem entryPos_next (first : Word) (k : Nat) :
    entryPos (first + BitVec.ofNat 32 recordSize) k = entryPos first (k + 1) := by
  unfold entryPos
  rw [Nat.succ_mul, Nat.add_comm, BitVec.ofNat_add, BitVec.add_assoc]

private theorem field_lt (r : Record) (start size : Nat) : field r start size < 256 ^ size := by
  -- the digits are taken from the front, so the value read so far is kept in the bound
  have bound : ∀ (bytes : List Byte) (v : Nat),
      bytes.foldl (fun v b => v * 256 + b.toNat) v < (v + 1) * 256 ^ bytes.length := by
    intro bytes
    induction bytes with
    | nil => simp
    | cons b bytes ih =>
      intro v
      have small : v * 256 + b.toNat + 1 ≤ (v + 1) * 256 := by
        have := b.isLt
        omega
      calc bytes.foldl (fun v b => v * 256 + b.toNat) (v * 256 + b.toNat)
          < (v * 256 + b.toNat + 1) * 256 ^ bytes.length := ih _
        _ ≤ (v + 1) * 256 * 256 ^ bytes.length := Nat.mul_le_mul_right _ small
        _ = (v + 1) * 256 ^ (b :: bytes).length := by
          rw [List.length_cons, Nat.pow_succ]
          ring
  have taken : ((r.drop start).take size).length ≤ size := List.length_take_le _ _
  calc field r start size < (0 + 1) * 256 ^ ((r.drop start).take size).length := bound _ 0
    _ ≤ 256 ^ size := by
      rw [zero_add, one_mul]
      exact Nat.pow_le_pow_right (by decide) taken

private theorem sdbRecords_lt (r : Record) : sdbRecords r < 65536 := field_lt r 4 2

/-- The head of a directory is no bridge. -/
theorem isBridge_of_directory {r : Record} (dir : isDirectory r = true) : isBridge r = false := by
  have type : recordType r = sdbTypeInterconnect := (of_decide_eq_true dir).1
  simp [isBridge, type, sdbTypeInterconnect, sdbTypeBridge]

/-- The first of the entries that are left, and the others. -/
theorem EntriesFit.next {dev : Device} {levels : Nat} {base first : Word} {left : Int}
    (fit : EntriesFit dev levels base first left) (some_left : left ≠ 0) :
    Inside dev first ∧ BridgeFits dev levels base (recordAt dev first) ∧
      EntriesFit dev levels base (first + BitVec.ofNat 32 recordSize) (left - 1) := by
  obtain ⟨counted, entries⟩ := fit
  have head := entries 0 (by omega)
  rw [entryPos_zero] at head
  refine ⟨head.1, head.2, by omega, ?_⟩
  intro k below
  rw [entryPos_next]
  exact entries (k + 1) (by omega)

/-- The directory of a bridge that fits. -/
theorem BridgeFits.child {dev : Device} {levels : Nat} {base : Word} {r : Record}
    (fit : BridgeFits dev (levels + 1) base r) (bridge : isBridge r = true) :
    Inside dev (base + BitVec.ofNat 32 (sdbChild r)) ∧
      (isDirectory (recordAt dev (base + BitVec.ofNat 32 (sdbChild r))) = true →
        EntriesFit dev levels (base + BitVec.ofNat 32 (addrFirst r))
          (base + BitVec.ofNat 32 (sdbChild r) + BitVec.ofNat 32 recordSize)
          (sdbRecords (recordAt dev (base + BitVec.ofNat 32 (sdbChild r))) - 1)) := by
  obtain ⟨inside, directory⟩ := fit bridge
  refine ⟨inside, fun dir => ?_⟩
  obtain ⟨counted, entries⟩ := directory dir
  refine ⟨by omega, fun k below => ?_⟩
  rw [entryPos_next]
  exact entries k (by omega)

/-! ### How much is left of a scan -/

/-- More than the steps that an entry of a directory of this depth is good for. -/
def weight (depth : Nat) : Nat := 65536 ^ levelsBelow depth

/-- The entries that are left in the directories on the path. -/
def pathLeft (nleft : Nat → Int) (depth : Nat) : Nat :=
  ∑ d ∈ Finset.range (depth + 1), (nleft d).toNat * weight d

/-- What the record that was returned last may still open. -/
def pending (fs : Sdbfs) : Nat :=
  if fs.currentp.any isBridge ∧ fs.depth + 1 < sdbfsDepth then weight fs.depth - 1 else 0

/-- A measure that every step of a scan lowers. -/
def potential (fs : Sdbfs) : Nat := pathLeft fs.nleft fs.depth + pending fs

private theorem weight_pos (depth : Nat) : 0 < weight depth := Nat.pow_pos (by decide)

private theorem weight_next {depth : Nat} (deeper : depth + 1 < sdbfsDepth) :
    weight depth = 65536 * weight (depth + 1) := by
  have levels : levelsBelow depth = levelsBelow (depth + 1) + 1 := by
    simp only [levelsBelow, sdbfsDepth] at *
    omega
  rw [weight, weight, levels, Nat.pow_succ, Nat.mul_comm]

private theorem pending_lt_weight (fs : Sdbfs) : pending fs < weight fs.depth := by
  have := weight_pos fs.depth
  unfold pending
  split_ifs <;> omega

private theorem pathLeft_mono (nleft : Nat → Int) {shallow deep : Nat} (above : shallow ≤ deep) :
    pathLeft nleft shallow ≤ pathLeft nleft deep :=
  Finset.sum_le_sum_of_subset (Finset.range_mono (by omega))

private theorem pathLeft_update (nleft : Nat → Int) (depth : Nat) (left : Int) :
    pathLeft (Function.update nleft depth left) depth + (nleft depth).toNat * weight depth =
      pathLeft nleft depth + left.toNat * weight depth := by
  have below : ∑ d ∈ Finset.range depth, ((Function.update nleft depth left) d).toNat * weight d =
      ∑ d ∈ Finset.range depth, (nleft d).toNat * weight d := by
    refine Finset.sum_congr rfl fun d member => ?_
    rw [Function.update_of_ne (Nat.ne_of_lt (Finset.mem_range.mp member))]
  rw [pathLeft, pathLeft, Finset.sum_range_succ, Finset.sum_range_succ, below,
    Function.update_self]
  omega

private theorem pathLeft_enter (nleft : Nat → Int) (depth : Nat) (left : Int) :
    pathLeft (Function.update nleft (depth + 1) left) (depth + 1) =
      pathLeft nleft depth + left.toNat * weight (depth + 1) := by
  have below : ∑ d ∈ Finset.range (depth + 1),
      ((Function.update nleft (depth + 1) left) d).toNat * weight d = pathLeft nleft depth := by
    refine Finset.sum_congr rfl fun d member => ?_
    rw [Function.update_of_ne (Nat.ne_of_lt (Finset.mem_range.mp member))]
  rw [pathLeft, Finset.sum_range_succ, below, Function.update_self]

private theorem pathLeft_root (nleft : Nat → Int) :
    pathLeft nleft 0 = (nleft 0).toNat * weight 0 := by
  rw [pathLeft, Finset.sum_range_one]

/-- At the end of the loop that goes up, only finished directories have been left. -/
theorem cdUp_some (nleft : Nat → Int) (depth found : Nat) (up : cdUp nleft depth = some found) :
    found ≤ depth ∧ nleft found ≠ 0 := by
  induction depth with
  | zero =>
    simp only [cdUp] at up
    split_ifs at up with empty
    cases up
    exact ⟨Nat.le_refl 0, empty⟩
  | succ depth ih =>
    simp only [cdUp] at up
    split_ifs at up with empty
    · have above := ih up
      exact ⟨by omega, above.2⟩
    · cases up
      exact ⟨Nat.le_refl _, empty⟩

/-! ### One step of a scan -/

/-- A call of `sdbfs_scan` returns, and what is left of the scan fits and is less than a bound. -/
def StepFits (dev : Device) (bound : Nat) (outcome : Option (Sdbfs × Option Record)) : Prop :=
  ∃ fs found, outcome = some (fs, found) ∧ fs.dev = dev ∧
    ∀ r, found = some r → fs.currentp = some r ∧ Remaining fs ∧ potential fs < bound

private theorem bridgeFits_of_directory {dev : Device} {levels : Nat} {base : Word} {r : Record}
    (dir : isDirectory r = true) : BridgeFits dev levels base r := by
  have plain := isBridge_of_directory dir
  cases levels with
  | zero => trivial
  | succ levels =>
    intro bridge
    rw [plain] at bridge
    cases bridge

/-- The head of a directory that fits, below directories that fit. -/
theorem openDirectory_remaining (fs : Sdbfs) (depth : Nat) (head : Record)
    (shallow : depth < sdbfsDepth) (dir : isDirectory head = true)
    (outer : ∀ d < depth, EntriesFit fs.dev (levelsBelow d) (fs.base d) (fs.this d) (fs.nleft d))
    (entries : EntriesFit fs.dev (levelsBelow depth) (fs.base depth)
      (fs.this depth + BitVec.ofNat 32 recordSize) (sdbRecords head - 1)) :
    Remaining (openDirectory fs depth head) := by
  refine ⟨⟨shallow, fun d (below : d ≤ depth) => ?_⟩, head, rfl, bridgeFits_of_directory dir⟩
  simp only [openDirectory]
  rcases Nat.lt_or_eq_of_le below with above | rfl
  · simp only [Function.update_of_ne (Nat.ne_of_lt above)]
    exact outer d above
  · simp only [Function.update_self]
    exact entries

private theorem pending_openDirectory (fs : Sdbfs) (depth : Nat) (head : Record)
    (dir : isDirectory head = true) : pending (openDirectory fs depth head) = 0 := by
  simp [pending, openDirectory, isBridge_of_directory dir]

/-- A larger bound does as well. -/
theorem StepFits.mono {dev : Device} {bound bound' : Nat}
    {outcome : Option (Sdbfs × Option Record)} (fits : StepFits dev bound outcome)
    (more : bound ≤ bound') : StepFits dev bound' outcome := by
  obtain ⟨fs, found, returned, same, rest⟩ := fits
  refine ⟨fs, found, returned, same, fun r shown => ?_⟩
  obtain ⟨current, left, lower⟩ := rest r shown
  exact ⟨current, left, Nat.lt_of_lt_of_le lower more⟩

variable {methods : Methods} (sound : methods.Sound)
include sound

/-- A record inside the image is read. -/
theorem readEntry_inside {dev : Device} {pos : Word} (inside : Inside dev pos) :
    readEntry methods dev pos = some (recordAt dev pos) := by
  have small : pos.toNat < 2 ^ 31 := by
    have := inside.2
    simp only [recordSize, intReach] at this
    omega
  have signed : pos.toInt = (pos.toNat : Int) := BitVec.toInt_eq_toNat_of_lt (by omega)
  have read := sound.read dev.image pos.toNat recordSize inside.1
  unfold readEntry recordAt
  rw [if_pos inside.1, signed, read]
  split_ifs <;> rfl

private theorem scanNext_fits (fs : Sdbfs) (path : PathFits fs) :
    StepFits fs.dev (pathLeft fs.nleft fs.depth) (scanNext methods fs) := by
  obtain ⟨shallow, directories⟩ := path
  unfold scanNext
  split
  next ended =>
    exact ⟨_, none, rfl, rfl, fun r found => nomatch found⟩
  next depth up =>
    obtain ⟨above, some_left⟩ := cdUp_some fs.nleft fs.depth depth up
    obtain ⟨inside, bridge, others⟩ := (directories depth above).next some_left
    simp only [readEntry_inside sound inside, Option.bind_eq_bind, Option.bind_some]
    refine ⟨_, _, rfl, rfl, ?_⟩
    rintro r ⟨⟩
    refine ⟨rfl, ⟨⟨Nat.lt_of_le_of_lt above shallow, fun d (below : d ≤ depth) => ?_⟩, _, rfl,
      bridge⟩, ?_⟩
    · -- the directory that was read from has lost an entry, the ones above it are as before
      simp only [takeEntry]
      rcases Nat.lt_or_eq_of_le below with outer | rfl
      · simp only [Function.update_of_ne (Nat.ne_of_lt outer)]
        exact directories d (by omega)
      · simp only [Function.update_self]
        exact others
    · have counted := (directories depth above).1
      have update := pathLeft_update fs.nleft depth (fs.nleft depth - 1)
      have mono := pathLeft_mono fs.nleft above
      -- the weight of one entry of the directory pays for what the record brings
      have one : (fs.nleft depth).toNat = (fs.nleft depth - 1).toNat + 1 := by omega
      have small := pending_lt_weight
        (scanOut (takeEntry fs depth (recordAt fs.dev (fs.this depth)))
          (recordAt fs.dev (fs.this depth))).1
      rw [one, Nat.succ_mul] at update
      simp only [potential, scanOut, takeEntry] at small ⊢
      omega

/-- Into a bridge that fits, or on behind a record that is none. -/
theorem scanOn_fits (fs : Sdbfs) (remaining : Remaining fs) :
    StepFits fs.dev (potential fs) (scanOn methods fs) := by
  obtain ⟨path, current, returned, fit⟩ := remaining
  unfold scanOn
  rw [returned, Option.bind_eq_bind, Option.bind_some]
  split_ifs with enters
  · obtain ⟨bridge, deeper⟩ := enters
    -- the current record is a bridge to a directory one level below
    have levels : levelsBelow fs.depth = levelsBelow (fs.depth + 1) + 1 := by
      simp only [levelsBelow, sdbfsDepth] at *
      omega
    rw [levels] at fit
    obtain ⟨inside, directory⟩ := fit.child bridge
    have child : (enterBridge fs current).this (fs.depth + 1) =
        fs.base fs.depth + BitVec.ofNat 32 (sdbChild current) := Function.update_self ..
    have base : (enterBridge fs current).base (fs.depth + 1) =
        fs.base fs.depth + BitVec.ofNat 32 (addrFirst current) := Function.update_self ..
    rw [← child] at directory inside
    rw [← base] at directory
    -- the directories above keep what they have left
    have outer : ∀ d ≤ fs.depth, EntriesFit fs.dev (levelsBelow d) ((enterBridge fs current).base d)
        ((enterBridge fs current).this d) (fs.nleft d) := by
      intro d below
      have other : d ≠ fs.depth + 1 := by omega
      simp only [enterBridge, Function.update_of_ne other]
      exact path.2 d below
    have pends : potential fs = pathLeft fs.nleft fs.depth + (weight fs.depth - 1) := by
      rw [potential, pending, if_pos (by rw [returned]; exact ⟨bridge, deeper⟩)]
    have heavy := weight_next deeper
    have positive := weight_pos (fs.depth + 1)
    rw [scanNewdir, show (enterBridge fs current).dev = fs.dev from rfl,
      readEntry_inside sound inside]
    simp only [Option.bind_eq_bind, Option.bind_some]
    generalize recordAt fs.dev ((enterBridge fs current).this (fs.depth + 1)) = head at directory ⊢
    cases dir : isDirectory head with
    | true =>
      refine ⟨_, _, rfl, rfl, ?_⟩
      rintro r ⟨⟩
      have entered := openDirectory_remaining (enterBridge fs current) (fs.depth + 1) head deeper
        dir (fun d above => outer d (by omega)) (directory dir)
      refine ⟨rfl, entered, ?_⟩
      have small := sdbRecords_lt head
      have left := pathLeft_enter fs.nleft fs.depth (sdbRecords head - 1)
      have opened : potential (openDirectory (enterBridge fs current) (fs.depth + 1) head) =
          pathLeft fs.nleft fs.depth +
            ((sdbRecords head : Int) - 1).toNat * weight (fs.depth + 1) := by
        rw [potential, pending_openDirectory _ _ _ dir]
        exact left
      -- a directory has at most 65534 entries behind its head
      have product : ((sdbRecords head : Int) - 1).toNat * weight (fs.depth + 1) ≤
          65534 * weight (fs.depth + 1) := Nat.mul_le_mul_right _ (by omega)
      change potential (openDirectory (enterBridge fs current) (fs.depth + 1) head) < potential fs
      omega
    | false =>
      have skipped := scanNext_fits sound { enterBridge fs current with currentp := some head }
        ⟨path.1, outer⟩
      exact skipped.mono (by rw [pends]; exact Nat.le_add_right _ _)
  · exact (scanNext_fits sound fs path).mono (Nat.le_add_right _ _)

/-- A new scan of an image that fits. -/
theorem scanFirst_fits (fs : Sdbfs) (root : RootFits fs) :
    ∃ after found, scanFirst methods fs = some (after, found) ∧ after.dev = fs.dev ∧
      Remaining after ∧ potential after < scanLimit ∧
      ∀ r, found = some r → after.currentp = some r := by
  obtain ⟨inside, fit⟩ := root
  have limit : scanLimit = 65536 * weight 0 := rfl
  have positive := weight_pos 0
  have start : (restart fs).this 0 = fs.dev.entrypoint := by simp [restart]
  have base : (restart fs).base 0 = 0 := by simp [restart]
  rw [← start] at inside
  rw [scanFirst, scanNewdir, show (restart fs).dev = fs.dev from rfl,
    readEntry_inside sound inside, start]
  simp only [Option.bind_eq_bind, Option.bind_some]
  generalize recordAt fs.dev fs.dev.entrypoint = head at fit ⊢
  cases dir : isDirectory head with
  | true =>
    have second : entryPos fs.dev.entrypoint 1 =
        (restart fs).this 0 + BitVec.ofNat 32 recordSize := by
      rw [start, ← entryPos_next, entryPos_zero]
    rw [if_pos dir, second, ← base] at fit
    have small := sdbRecords_lt head
    have product : ((sdbRecords head : Int) - 1).toNat * weight 0 ≤ 65534 * weight 0 :=
      Nat.mul_le_mul_right _ (by omega)
    have opened : potential (openDirectory (restart fs) 0 head) =
        ((sdbRecords head : Int) - 1).toNat * weight 0 := by
      rw [potential, pending_openDirectory _ _ _ dir, Nat.add_zero]
      exact (pathLeft_root _).trans (by simp only [openDirectory, Function.update_self])
    refine ⟨_, _, rfl, rfl, ?_, ?_, fun r shown => shown⟩
    · exact openDirectory_remaining (restart fs) 0 head (by decide) dir
        (fun d below => absurd below (Nat.not_lt_zero d)) fit
    · change potential (openDirectory (restart fs) 0 head) < scanLimit
      omega
  | false =>
    rw [if_neg (by simp [dir])] at fit
    obtain ⟨finished, bridge⟩ := fit
    -- `nleft[0]` is what an older scan has left
    have none_left : ∀ d ≤ 0, EntriesFit fs.dev (levelsBelow d) ((restart fs).base d)
        ((restart fs).this d) (fs.nleft d) := by
      intro d below
      obtain rfl : d = 0 := by omega
      rw [finished]
      exact ⟨Int.le_refl 0, fun k counted => by omega⟩
    have rest : potential { restart fs with currentp := some head } < scanLimit := by
      have small := pending_lt_weight { restart fs with currentp := some head }
      have nothing : pathLeft fs.nleft 0 = 0 := by
        rw [pathLeft_root, finished]
        simp
      change pathLeft fs.nleft 0 + pending _ < scanLimit
      change pending _ < weight 0 at small
      omega
    refine ⟨_, _, rfl, rfl, ⟨⟨show 0 < sdbfsDepth by decide, none_left⟩, head, rfl, ?_⟩, rest,
      fun r shown => nomatch shown⟩
    rw [← base] at bridge
    exact bridge

/-- Every scan that fits ends, whatever it looks for. -/
theorem scanUntil_returns (wanted : Record → Bool) (steps : Nat) (fs : Sdbfs)
    (remaining : Remaining fs) (enough : potential fs < steps) :
    ∃ after found, scanUntil methods wanted steps fs = some (after, found) ∧
      after.dev = fs.dev ∧
      ∀ r, found = some r → after.currentp = some r ∧ Remaining after ∧ wanted r = true := by
  induction steps generalizing fs with
  | zero => omega
  | succ steps ih =>
    obtain ⟨next, found, returned, same, rest⟩ := scanOn_fits sound fs remaining
    rw [scanUntil, returned, Option.bind_eq_bind, Option.bind_some]
    cases found with
    | none => exact ⟨next, none, rfl, same, fun r shown => nomatch shown⟩
    | some r =>
      -- each record shown uses up some of the potential, so the walk ends
      obtain ⟨current, left, lower⟩ := rest r rfl
      by_cases here : wanted r = true
      · simp only [here, if_true]
        refine ⟨next, some r, rfl, same, ?_⟩
        rintro _ ⟨⟩
        exact ⟨current, left, here⟩
      · simp only [here]
        obtain ⟨after, found, ended, kept, shown⟩ := ih next left (by omega)
        exact ⟨after, found, ended, kept.trans same, shown⟩

/-- A scan of an image that fits ends. -/
theorem fullScan_returns (fs : Sdbfs) (root : RootFits fs) :
    ∃ after, fullScan methods fs = some after := by
  obtain ⟨first, found, returned, -, left, lower, -⟩ := scanFirst_fits sound fs root
  rw [fullScan, returned, Option.bind_eq_bind, Option.bind_some]
  cases found with
  | none => exact ⟨_, rfl⟩
  | some r =>
    obtain ⟨after, found, ended, -⟩ :=
      scanUntil_returns sound (fun _ => false) scanLimit first left lower
    exact ⟨_, ended⟩

end WrSwitch.Sdb
