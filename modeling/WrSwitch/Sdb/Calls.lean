import WrSwitch.Machine.Run
import WrSwitch.Sdb.Walk

/-!
# Calls in any order

A session is the state of the library with what its user knows: the range of the record that the
last call opened, and whether a scan is under way that nobody has written across.
-/
namespace WrSwitch.Sdb

open Machine

/-! ### Sessions -/

/-- The bytes of a record in the image, from the first to the last. -/
structure Range where
  first : Nat
  last : Nat
  deriving DecidableEq

def Range.length (range : Range) : Nat := range.last + 1 - range.first

/-- The range of the record that a scan has stopped at. -/
def rangeOf (fs : Sdbfs) (dev : Record) : Range where
  first := (fs.base fs.depth).toNat + addrFirst dev
  last := (fs.base fs.depth).toNat + addrLast dev

structure Session where
  fs : Sdbfs
  /-- The record opened by the last call that was neither a read nor a write. -/
  opened : Option Range
  /-- The last scan has not ended, and the image is as it was then. -/
  scanning : Bool

inductive Call where
  | scan (newscan : Bool)
  | openName (name : List Byte)
  | openId (vid : BitVec 64) (did : BitVec 32)
  | fread (offset : Word) (buf : List Byte) (count : Word)
  | fwrite (offset : Word) (buf : List Byte) (count : Word)

variable (methods : Methods)

/-- `sdbfs_scan` -/
def sdbfsScan (newscan : Bool) (fs : Sdbfs) : Option (Sdbfs × Option Record) :=
  if newscan then scanFirst methods fs else scanOn methods fs

def Session.scanned (s : Session) : Option (Sdbfs × Option Record) → Session
  | none => s
  | some (fs, found) => ⟨fs, none, found.isSome⟩

def Session.sought (s : Session) : Option (Sdbfs × Int) → Session
  | none => s
  | some (fs, ret) =>
    if ret = 0 then ⟨fs, fs.currentp.map (rangeOf fs), true⟩ else ⟨fs, none, false⟩

def Session.accessed (s : Session) : Option (Sdbfs × Int × List Byte) → Session
  | none => s
  | some (fs, _) => ⟨fs, s.opened, s.scanning && fs.dev.image = s.fs.dev.image⟩

/-- A call in a session. One that does not return leaves it as it was. -/
def Session.step (s : Session) : Call → Session
  | .scan newscan => s.scanned (sdbfsScan methods newscan s.fs)
  | .openName name =>
    -- a name that no record has room for is refused before the scan
    if 19 < name.length then s else s.sought (openName methods name s.fs)
  | .openId vid did => s.sought (openId methods vid did s.fs)
  | .fread offset buf count => s.accessed (fread methods s.fs offset buf count)
  | .fwrite offset buf count => s.accessed (fwrite methods s.fs offset buf count)

/-! ### What is promised -/

/-- Where a read or a write begins in the record. -/
def position (fs : Sdbfs) (offset : Word) : Nat :=
  if offset.toInt < 0 then fs.readOffset.toNat else offset.toNat

/-- The bytes that a read or a write transfers. -/
def transferred (range : Range) (pos : Nat) (count : Word) : Nat :=
  if pos < range.length then min count.toNat (range.length - pos) else 0

/-- A call returns; a scan ends and reads no record outside the image; a read or a write transfers
just the bytes of the opened record that there are. -/
def Safe (s : Session) : Call → Prop
  | .scan newscan => (∃ after, sdbfsScan methods newscan s.fs = some after) ∧
      (newscan → ∃ after, fullScan methods s.fs = some after)
  | .openName name => ∃ after, openName methods name s.fs = some after
  | .openId vid did => ∃ after, openId methods vid did s.fs = some after
  | .fread offset buf count =>
    match s.opened with
    | none => fread methods s.fs offset buf count = some (s.fs, -enoent, buf)
    | some range =>
      let pos := position s.fs offset
      let n := transferred range pos count
      ∃ after : Sdbfs, fread methods s.fs offset buf count =
          some (after, (n : Int), (s.fs.dev.image.drop (range.first + pos)).take n ++ buf.drop n) ∧
        after.dev = s.fs.dev
  | .fwrite offset buf count =>
    match s.opened with
    | none => fwrite methods s.fs offset buf count = some (s.fs, -enoent, buf)
    | some range =>
      let pos := position s.fs offset
      let n := transferred range pos count
      ∃ after : Sdbfs, fwrite methods s.fs offset buf count = some (after, (n : Int), buf) ∧
        after.dev.image = s.fs.dev.image.take (range.first + pos) ++ buf.take n ++
          s.fs.dev.image.drop (range.first + pos + n)

variable {methods} {s : Session} {range : Range} {offset count : Word} {buf : List Byte}

/-- A safe scan ends. -/
theorem Safe.fullScan_returns (safe : Safe methods s (.scan true)) :
    (fullScan methods s.fs).isSome = true := by
  obtain ⟨after, ended⟩ := safe.2 rfl
  rw [ended]
  rfl

private theorem Safe.fread_returns (opened : s.opened = some range)
    (safe : Safe methods s (.fread offset buf count)) :
    (fread methods s.fs offset buf count).isSome = true := by
  simp only [Safe, opened] at safe
  obtain ⟨after, returned, -⟩ := safe
  rw [returned]
  rfl

/-- A write leaves the buffer alone. -/
theorem Safe.fwrite_buffer (opened : s.opened = some range)
    (safe : Safe methods s (.fwrite offset buf count)) :
    (fwrite methods s.fs offset buf count).map (fun r => r.2.2) = some buf := by
  simp only [Safe, opened] at safe
  obtain ⟨after, returned, -⟩ := safe
  rw [returned]
  rfl

/-! ### The condition -/

/-- A range is in order and inside the image, as far as an `int` goes. -/
def Range.Fits (range : Range) (image : List Byte) : Prop :=
  range.first ≤ range.last + 1 ∧ range.last + 1 ≤ image.length ∧ range.last + 1 < intReach

/-- The count is not negative and there is a buffer of that size, and the place is not past the
end of the opened record. -/
def InRecord (fs : Sdbfs) (range : Range) (offset : Word) (buf : List Byte) (count : Word) :
    Prop :=
  range.Fits fs.dev.image ∧ 0 ≤ count.toInt ∧ count.toNat ≤ buf.length ∧
    position fs offset ≤ range.length

instance (range : Range) (image : List Byte) : Decidable (range.Fits image) :=
  inferInstanceAs (Decidable (_ ∧ _ ∧ _))

instance (fs : Sdbfs) (range : Range) (offset : Word) (buf : List Byte) (count : Word) :
    Decidable (InRecord fs range offset buf count) :=
  inferInstanceAs (Decidable (_ ∧ _ ∧ _ ∧ _))

/-- The condition under which a call keeps its promise. -/
def CallOk (s : Session) : Call → Prop
  | .scan true => RootFits s.fs
  | .scan false => s.scanning = true ∨ Remaining s.fs
  | .openName name => 19 < name.length ∨ RootFits s.fs
  | .openId _ _ => RootFits s.fs
  | .fread offset buf count => s.fs.currentp = none ∨
      ∃ range, s.opened = some range ∧ InRecord s.fs range offset buf count
  | .fwrite offset buf count => s.fs.currentp = none ∨
      ∃ range, s.opened = some range ∧ InRecord s.fs range offset buf count ∧
        (s.fs.dev.mapped = true → transferred range (position s.fs offset) count = 0)

/-! ### The invariant -/

/-- The words of the library hold the range of the opened record. -/
def Holds (fs : Sdbfs) (range : Range) : Prop :=
  fs.currentp ≠ none ∧ fs.fOffset = BitVec.ofNat 32 range.first ∧
    fs.fLen + BitVec.ofNat 32 range.first = BitVec.ofNat 32 (range.last + 1)

def Inv (s : Session) : Prop :=
  (s.scanning = true → Remaining s.fs) ∧ ∀ range, s.opened = some range → Holds s.fs range

/-- An open record has its own range. -/
theorem openRecord_holds (fs : Sdbfs) (dev : Record) :
    Holds (openRecord fs dev) (rangeOf fs dev) := by
  have size : (openRecord fs dev).fLen =
      BitVec.ofNat 32 (addrLast dev) + BitVec.ofNat 32 1 - BitVec.ofNat 32 (addrFirst dev) := by
    simp only [openRecord, BitVec.sub_eq_add_neg]
    rw [BitVec.setWidth_add _ _ (by decide), BitVec.setWidth_add _ _ (by decide),
      BitVec.setWidth_neg_of_le (by decide), BitVec.setWidth_ofNat_of_le (by decide),
      BitVec.setWidth_ofNat_of_le (by decide)]
    rfl
  refine ⟨nofun, ?_, ?_⟩
  · simp only [openRecord, rangeOf, BitVec.ofNat_add, BitVec.ofNat_toNat, BitVec.setWidth_eq]
  · rw [size]
    simp only [rangeOf, BitVec.ofNat_add, BitVec.ofNat_toNat, BitVec.setWidth_eq]
    ring

/-- The range as the words of `struct sdbfs` have it. -/
theorem Holds.words {fs : Sdbfs} {range : Range} (holds : Holds fs range)
    (order : range.first ≤ range.last + 1) (reach : range.last + 1 < intReach) :
    fs.fOffset.toNat = range.first ∧ fs.fLen.toNat = range.length := by
  obtain ⟨-, start, size⟩ := holds
  have sum := congrArg BitVec.toNat size
  have small := fs.fLen.isLt
  simp only [intReach] at reach
  rw [BitVec.toNat_add, BitVec.toNat_ofNat, BitVec.toNat_ofNat, Nat.mod_eq_of_lt (by omega),
    Nat.mod_eq_of_lt (by omega)] at sum
  rw [start, BitVec.toNat_ofNat, Nat.mod_eq_of_lt (by omega), Range.length]
  exact ⟨rfl, by omega⟩

/-! ### Reads and writes -/

/-- The place and the count that are used, inside the record. -/
structure Placed (fs : Sdbfs) (range : Range) (offset : Word) (buf : List Byte) (count : Word) :
    Prop where
  start : (fs.fOffset + (clamp fs offset count).1).toNat = range.first + position fs offset
  signed : (fs.fOffset + (clamp fs offset count).1).toInt =
    ((range.first + position fs offset : Nat) : Int)
  number : (clamp fs offset count).2.toNat = transferred range (position fs offset) count
  result : (clamp fs offset count).2.toInt = (transferred range (position fs offset) count : Int)
  inside : range.first + position fs offset + transferred range (position fs offset) count ≤
    fs.dev.image.length
  room : transferred range (position fs offset) count ≤ buf.length

private theorem transferred_le (range : Range) (pos : Nat) (count : Word)
    (inside : pos ≤ range.length) :
    pos + transferred range pos count ≤ range.length ∧
      transferred range pos count ≤ count.toNat := by
  unfold transferred
  split_ifs <;> omega

/-- Where a read or write in the record comes to lie. -/
theorem placed {fs : Sdbfs} {range : Range} {offset : Word} {buf : List Byte} {count : Word}
    (holds : Holds fs range) (inRecord : InRecord fs range offset buf count) :
    Placed fs range offset buf count := by
  obtain ⟨fits, counted, room, inside⟩ := inRecord
  obtain ⟨order, image, reach⟩ := fits
  obtain ⟨first, size⟩ := holds.words order reach
  obtain ⟨ends, fewer⟩ := transferred_le range (position fs offset) count inside
  have last : range.first + range.length = range.last + 1 := by
    unfold Range.length
    omega
  simp only [intReach] at reach
  have positive : count.toNat < 2 ^ 31 := by
    have signed := BitVec.toInt_eq_toNat_cond count
    split_ifs at signed <;> omega
  have place : (clamp fs offset count).1.toNat = position fs offset := by
    simp only [clamp, position]
    split_ifs <;> rfl
  have number : (clamp fs offset count).2.toNat = transferred range (position fs offset) count := by
    have sum : ((clamp fs offset count).1 + count).toNat = position fs offset + count.toNat := by
      rw [BitVec.toNat_add, place, Nat.mod_eq_of_lt (by omega)]
    have split : (clamp fs offset count).2 =
        if fs.fLen < (clamp fs offset count).1 + count then fs.fLen - (clamp fs offset count).1
        else count := rfl
    rw [split]
    unfold transferred
    split
    next past =>
      -- the request goes past the end of the record
      rw [BitVec.lt_def, sum, size] at past
      rw [BitVec.toNat_sub_of_le (BitVec.le_def.mpr (by omega)), size, place]
      split_ifs <;> omega
    next fits =>
      rw [BitVec.lt_def, sum, size] at fits
      split_ifs <;> omega
  have start :
      (fs.fOffset + (clamp fs offset count).1).toNat = range.first + position fs offset := by
    rw [BitVec.toNat_add, first, place, Nat.mod_eq_of_lt (by omega)]
  refine ⟨start, ?_, number, ?_, by omega, by omega⟩
  · rw [BitVec.toInt_eq_toNat_of_lt (by omega), start]
  · rw [BitVec.toInt_eq_toNat_of_lt (by omega), number]

private theorem advance_eq (fs : Sdbfs) (offset : Word) (ret : Int) :
    advance fs offset ret = { fs with readOffset := (advance fs offset ret).readOffset } := by
  unfold advance
  split_ifs <;> rfl

private theorem advance_dev (fs : Sdbfs) (offset : Word) (ret : Int) :
    (advance fs offset ret).dev = fs.dev := by
  rw [advance_eq]

/-- A copy from the mapped image stays inside the record. -/
theorem copyMapped_placed {fs : Sdbfs} {range : Range} {offset : Word} {buf : List Byte}
    {count : Word} (at_place : Placed fs range offset buf count) :
    copyMapped fs (clamp fs offset count).1 (clamp fs offset count).2 buf =
      some ((fs.dev.image.drop (range.first + position fs offset)).take
          (transferred range (position fs offset) count) ++
        buf.drop (transferred range (position fs offset) count)) := by
  have both : range.first + position fs offset + transferred range (position fs offset) count ≤
      fs.dev.image.length ∧ transferred range (position fs offset) count ≤ buf.length :=
    ⟨at_place.inside, at_place.room⟩
  have number := at_place.number
  simp only [copyMapped, at_place.start, number]
  split_ifs with nothing
  · rw [nothing] at number
    rw [← number]
    rfl
  · rfl

variable (sound : methods.Sound)
include sound

private theorem fread_inside {fs : Sdbfs} {range : Range} {offset : Word} {buf : List Byte}
    {count : Word} (holds : Holds fs range) (inRecord : InRecord fs range offset buf count) :
    ∃ after : Sdbfs, fread methods fs offset buf count =
        some (after, (transferred range (position fs offset) count : Int),
          (fs.dev.image.drop (range.first + position fs offset)).take
              (transferred range (position fs offset) count) ++
            buf.drop (transferred range (position fs offset) count)) ∧
      after.dev = fs.dev := by
  have at_place := placed holds inRecord
  have opened : ¬ fs.currentp.isNone := by simpa using holds.1
  unfold fread
  rw [if_neg opened]
  -- a mapped device is copied from memory, the others through their method
  by_cases mapped : fs.dev.mapped = true
  · simp only [mapped, if_true, copyMapped_placed at_place, Option.map_some, at_place.result]
    exact ⟨_, rfl, advance_dev _ _ _⟩
  · have read := sound.read fs.dev.image _ _ at_place.inside
    have taken : ((fs.dev.image.drop (range.first + position fs offset)).take
        (transferred range (position fs offset) count)).length =
          transferred range (position fs offset) count := by
      have := at_place.inside
      rw [List.length_take, List.length_drop]
      omega
    simp only [mapped, at_place.signed, at_place.result, read, taken]
    exact ⟨_, rfl, advance_dev _ _ _⟩

private theorem fwrite_inside {fs : Sdbfs} {range : Range} {offset : Word} {buf : List Byte}
    {count : Word} (holds : Holds fs range) (inRecord : InRecord fs range offset buf count)
    (direction : fs.dev.mapped = true → transferred range (position fs offset) count = 0) :
    ∃ after : Sdbfs, fwrite methods fs offset buf count =
        some (after, (transferred range (position fs offset) count : Int), buf) ∧
      after.dev.image = fs.dev.image.take (range.first + position fs offset) ++
        buf.take (transferred range (position fs offset) count) ++
        fs.dev.image.drop
          (range.first + position fs offset + transferred range (position fs offset) count) := by
  have at_place := placed holds inRecord
  have opened : ¬ fs.currentp.isNone := by simpa using holds.1
  unfold fwrite
  rw [if_neg opened]
  by_cases mapped : fs.dev.mapped = true
  · -- nothing is copied, which is right in either direction
    simp only [mapped, if_true, copyMapped_placed at_place, Option.map_some, at_place.result]
    simp only [direction mapped, List.take_zero, List.drop_zero, List.nil_append, Nat.add_zero,
      List.append_nil, List.take_append_drop]
    exact ⟨_, rfl, by rw [advance_dev]⟩
  · have written := sound.write fs.dev.image _ buf _ at_place.inside at_place.room
    simp only [mapped, at_place.signed, at_place.result, written]
    exact ⟨_, rfl, by rw [advance_dev]⟩

omit sound

private theorem fread_frame {fs after : Sdbfs} {offset count : Word} {buf buf' : List Byte}
    {ret : Int} (returned : fread methods fs offset buf count = some (after, ret, buf')) :
    after = { fs with readOffset := after.readOffset } := by
  unfold fread at returned
  split_ifs at returned
  · cases returned
    rfl
  · obtain ⟨_, -, equal⟩ := Option.map_eq_some_iff.mp returned
    cases equal
    exact advance_eq _ _ _
  · cases returned
    exact advance_eq _ _ _

private theorem fwrite_frame {fs after : Sdbfs} {offset count : Word} {buf buf' : List Byte}
    {ret : Int} (returned : fwrite methods fs offset buf count = some (after, ret, buf')) :
    after = { fs with
      dev := { fs.dev with image := after.dev.image }
      readOffset := after.readOffset } := by
  unfold fwrite at returned
  split_ifs at returned
  · cases returned
    rfl
  · obtain ⟨_, -, equal⟩ := Option.map_eq_some_iff.mp returned
    cases equal
    rw [advance_eq]
  · cases returned
    rw [advance_eq]

/-! ### Steps and runs -/

include sound

private theorem openWanted_returns (wanted : Record → Bool) (fs : Sdbfs) (root : RootFits fs) :
    (∃ after, openWanted methods wanted fs = some (after, -enoent)) ∨
      ∃ before r, openWanted methods wanted fs = some (openRecord before r, 0) ∧
        Remaining (openRecord before r) := by
  obtain ⟨first, found, returned, -, left, lower, -⟩ := scanFirst_fits sound fs root
  obtain ⟨after, sought, ended, -, stopped⟩ :=
    scanUntil_returns sound wanted scanLimit first left lower
  simp only [openWanted, returned, Option.bind_eq_bind, Option.bind_some, ended]
  cases sought with
  | none => exact .inl ⟨after, rfl⟩
  | some r =>
    obtain ⟨current, ⟨path, r', same, bridge⟩, -⟩ := stopped r rfl
    rw [current] at same
    cases same
    exact .inr ⟨after, r, rfl, path, r, rfl, bridge⟩

private theorem sought_inv (s : Session) (wanted : Record → Bool) (root : RootFits s.fs) :
    Inv (s.sought (openWanted methods wanted s.fs)) := by
  rcases openWanted_returns sound wanted s.fs root with ⟨after, returned⟩ | ⟨fs, r, returned, left⟩
  · rw [returned]
    exact ⟨nofun, nofun⟩
  · rw [returned]
    refine ⟨fun _ => left, ?_⟩
    rintro _ ⟨⟩
    exact openRecord_holds fs r

private theorem scan_returns (newscan : Bool) (s : Session) (inv : Inv s)
    (ok : CallOk s (.scan newscan)) :
    ∃ after found, sdbfsScan methods newscan s.fs = some (after, found) ∧
      ∀ r, found = some r → Remaining after := by
  cases newscan with
  | true =>
    obtain ⟨after, found, returned, -, left, -, -⟩ := scanFirst_fits sound s.fs ok
    exact ⟨after, found, returned, fun _ _ => left⟩
  | false =>
    obtain ⟨after, found, returned, -, rest⟩ := scanOn_fits sound s.fs (ok.elim inv.1 id)
    exact ⟨after, found, returned, fun r shown => (rest r shown).2.1⟩

omit sound

private theorem accessed_inv (s : Session) (outcome : Option (Sdbfs × Int × List Byte))
    (inv : Inv s) (frame : ∀ after ret buf, outcome = some (after, ret, buf) → after = { s.fs with
      dev := { s.fs.dev with image := after.dev.image }
      readOffset := after.readOffset }) : Inv (s.accessed outcome) := by
  rcases outcome with _ | ⟨after, ret, buf⟩
  · exact inv
  · have same := frame after ret buf rfl
    refine ⟨fun scanning => ?_, fun range opened => ?_⟩
    · simp only [Session.accessed, Bool.and_eq_true, decide_eq_true_eq] at scanning ⊢
      rw [same, scanning.2]
      exact inv.1 scanning.1
    · simp only [Session.accessed] at opened ⊢
      rw [same]
      exact inv.2 range opened

include sound

/-- Every call that meets its condition keeps the invariant. -/
theorem step_inv (s : Session) (call : Call) (inv : Inv s) (ok : CallOk s call) :
    Inv (s.step methods call) := by
  cases call with
  | scan newscan =>
    obtain ⟨after, found, returned, left⟩ := scan_returns sound newscan s inv ok
    simp only [Session.step, returned, Session.scanned]
    refine ⟨fun scanning => ?_, nofun⟩
    -- a scan goes on as long as it returns records
    obtain ⟨r, shown⟩ := Option.isSome_iff_exists.mp scanning
    exact left r shown
  | openName name =>
    simp only [Session.step]
    split_ifs with long
    · exact inv
    · rw [openName, if_neg long]
      exact sought_inv sound s _ (ok.resolve_left long)
  | openId vid did => exact sought_inv sound s _ ok
  | fread offset buf count =>
    refine accessed_inv s _ inv fun after ret buf' returned => ?_
    rw [fread_frame returned]
  | fwrite offset buf count =>
    exact accessed_inv s _ inv fun after ret buf' returned => fwrite_frame returned

private theorem safe_of_ok (s : Session) (call : Call) (inv : Inv s) (ok : CallOk s call) :
    Safe methods s call := by
  cases call with
  | scan newscan =>
    obtain ⟨after, found, returned, -⟩ := scan_returns sound newscan s inv ok
    refine ⟨⟨_, returned⟩, fun first => ?_⟩
    subst first
    exact fullScan_returns sound s.fs ok
  | openName name =>
    by_cases long : 19 < name.length
    · exact ⟨_, if_pos long⟩
    · simp only [Safe, openName, if_neg long]
      rcases openWanted_returns sound (hasName name) s.fs (ok.resolve_left long) with
        ⟨after, returned⟩ | ⟨before, r, returned, -⟩ <;> exact ⟨_, returned⟩
  | openId vid did =>
    rcases openWanted_returns sound _ s.fs ok with
      ⟨after, returned⟩ | ⟨before, r, returned, -⟩ <;> exact ⟨_, returned⟩
  -- nothing is open, or the record that is
  | fread offset buf count =>
    rcases ok with closed | ⟨range, opened, inRecord⟩
    · have none_open : s.opened = none := by
        cases opened : s.opened with
        | none => rfl
        | some range => exact absurd closed (inv.2 range opened).1
      simp [Safe, none_open, fread, closed]
    · simp only [Safe, opened]
      exact fread_inside sound (inv.2 range opened) inRecord
  | fwrite offset buf count =>
    -- a write must also go in the direction of the device
    rcases ok with closed | ⟨range, opened, inRecord, direction⟩
    · have none_open : s.opened = none := by
        cases opened : s.opened with
        | none => rfl
        | some range => exact absurd closed (inv.2 range opened).1
      simp [Safe, none_open, fwrite, closed]
    · simp only [Safe, opened]
      exact fwrite_inside sound (inv.2 range opened) inRecord direction

/-- A device of which nothing has been read yet. -/
def Session.fresh (dev : Device) : Session where
  fs := ⟨dev, none, 0, 0, 0, fun _ => 0, fun _ => 0, fun _ => 0, 0⟩
  opened := none
  scanning := false

/-- In every run whose calls meet the condition, every call keeps its promise. -/
theorem calls_safe (dev : Device) (calls : List Call)
    (ok : Along CallOk (Session.step methods) (Session.fresh dev) calls) :
    Along (Safe methods) (Session.step methods) (Session.fresh dev) calls := by
  refine Along.strengthen Inv (step_inv sound) (safe_of_ok sound) ?_ ok
  exact ⟨nofun, nofun⟩

/-! ### A small image -/

omit sound

/-- The read method of `wrs_version.c` and a write method like it. -/
def fileMethods : Methods where
  read := fun image offset count =>
    if offset < 0 then ([], -1)
    else
      let bytes := (image.drop offset.toNat).take count.toNat
      (bytes, bytes.length)
  write := fun image offset buf count =>
    if offset < 0 then (image, -1)
    else
      (image.take offset.toNat ++ buf.take count.toNat ++ image.drop (offset.toNat + count.toNat),
        count)

/-- Methods that read and write a file. -/
theorem fileMethods_sound : fileMethods.Sound where
  read := by
    intro image offset count inside
    have size : ((image.drop offset).take count).length = count := by
      rw [List.length_take, List.length_drop]
      omega
    have forward : ¬ ((offset : Int) < 0) := by omega
    simp only [fileMethods, if_neg forward, Int.toNat_natCast, size]
  write := by
    intro image offset buf count inside filled
    have forward : ¬ ((offset : Int) < 0) := by omega
    simp only [fileMethods, if_neg forward, Int.toNat_natCast]

/-- A record of the given kind, with addresses of one byte. -/
def smallRecord (head : List Byte) (first last : Byte) (name : List Byte) (type : Byte) : Record :=
  head ++ List.replicate 7 0 ++ [first] ++ List.replicate 7 0 ++ [last] ++ List.replicate 20 0 ++
    name ++ List.replicate (19 - name.length) 0x20 ++ [type]

/-- The head of a directory that counts some records. -/
def smallHead (records : Byte) : Record :=
  smallRecord [0x53, 0x44, 0x42, 0x2d, 0, records, 1, 1] 0 130 [0x2e] sdbTypeInterconnect

/-- A directory with the file `a` of three bytes. -/
def smallDevice (records : Byte) : Device where
  image := smallHead records ++ smallRecord (List.replicate 8 0) 128 130 [0x61] 1 ++
    [0x68, 0x69, 0x0a]
  mapped := true
  convert32 := false
  zeroBased := false
  entrypoint := 0

/-- The file `a` has been opened. -/
abbrev smallSession : Session :=
  (Session.fresh (smallDevice 2)).step fileMethods (.openName [0x61])

private theorem smallDevice_fits (fs : Sdbfs) (same : fs.dev = smallDevice 2) : RootFits fs := by
  have directory : isDirectory (recordAt (smallDevice 2) 0) = true := by decide +kernel
  have counted : (sdbRecords (recordAt (smallDevice 2) 0) : Int) - 1 = 1 := by decide +kernel
  have plain : isBridge (recordAt (smallDevice 2) (entryPos (entryPos 0 1) 0)) = false := by
    decide +kernel
  unfold RootFits
  rw [same]
  refine ⟨by decide +kernel, ?_⟩
  change if isDirectory (recordAt (smallDevice 2) 0) = true then EntriesFit (smallDevice 2) 3 0
    (entryPos 0 1) ((sdbRecords (recordAt (smallDevice 2) 0) : Int) - 1) else _
  rw [if_pos directory, counted]
  refine ⟨by decide, fun k below => ?_⟩
  obtain rfl : k = 0 := by omega
  refine ⟨by decide +kernel, fun bridge => ?_⟩
  rw [plain] at bridge
  cases bridge

/-- The file is opened and read, and then there is a new scan. -/
theorem calls_safe_small : Along (Safe fileMethods) (Session.step fileMethods)
    (Session.fresh (smallDevice 2))
    [.openName [0x61], .fread (-1) (List.replicate 8 0) 8, .scan true] := by
  have opened : smallSession.opened = some ⟨128, 130⟩ := by decide +kernel
  have inRecord : InRecord smallSession.fs ⟨128, 130⟩ (-1) (List.replicate 8 0) 8 := by
    decide +kernel
  have same : (smallSession.step fileMethods (.fread (-1) (List.replicate 8 0) 8)).fs.dev =
      smallDevice 2 := by
    decide +kernel
  have first : RootFits (Session.fresh (smallDevice 2)).fs := smallDevice_fits _ rfl
  have again := smallDevice_fits _ same
  exact calls_safe fileMethods_sound (smallDevice 2) _
    ⟨.inr first, .inr ⟨_, opened, inRecord⟩, again, trivial⟩

/-- A write to the mapped file `a` reads from it instead. A read behind its end does not return.
A directory of 0 records is read on behind the image. -/
theorem calls_not_safe : ¬ Safe fileMethods smallSession (.fwrite 0 [1, 2] 2) ∧
    ¬ Safe fileMethods smallSession (.fread 4 [1] 1) ∧
    ¬ Safe fileMethods (Session.fresh (smallDevice 0)) (.scan true) := by
  have opened : smallSession.opened = some ⟨128, 130⟩ := by decide +kernel
  exact ⟨mt (Safe.fwrite_buffer opened) (by decide +kernel),
    mt (Safe.fread_returns opened) (by decide +kernel),
    mt Safe.fullScan_returns (by decide +kernel)⟩

end WrSwitch.Sdb
