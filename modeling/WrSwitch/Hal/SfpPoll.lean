import WrSwitch.Hal.Types
import WrSwitch.Libwr.SfpDb
import WrSwitch.Libwr.SfpWrite

/-!
# Insertion and removal of SFPs

`hal_port_poll_sfp` scans for modules again and again and compares what it finds with the scan
before. A module that has come is read by `hal_port_insert_sfp`.
-/
namespace WrSwitch.Hal

open Libwr

/-! ### Reading a header -/

/-- What the hardware answers while a header is read: the scan for modules, and the header that
the transfer brings, `none` if no device answers. -/
structure HeaderRead where
  scan : Word
  header : Option ShwSfpHeader

def emptyHeader : ShwSfpHeader := fun _ => 0

/-- The sum of the bytes from `first` on, as the checksums have it. -/
def headerSum (head : ShwSfpHeader) (first count : Nat) : Nat :=
  ((List.range count).map fun i => (head (first + i)).toNat).sum % 256

/-- `shw_sfp_header_verify`: the base fields and the extended ones. -/
def shwSfpHeaderVerify (head : ShwSfpHeader) : Int :=
  if headerSum head 0 63 = (head 63).toNat ∧ headerSum head 64 31 = (head 95).toNat then 0 else -1

/-- `shw_sfp_read_verify_header` into a header of zeros. -/
def shwSfpReadVerifyHeader (num : Nat) (read : HeaderRead) : Int × ShwSfpHeader :=
  if shwSfpId num < 0 then (-1, emptyHeader)
  else if read.scan.getLsbD num = false then (-2, emptyHeader)
  else
    match read.header with
    | none => (-19, emptyHeader)
    | some head => (shwSfpHeaderVerify head, head)

/-! ### Ports -/

/-- What the poll uses of `struct hal_port_state`; `sfp` is the entry of the database, `none` for
an unknown module. -/
structure SfpPort where
  inUse : Bool
  hwIndex : Nat
  sfpPresent : Bool
  hasSfpDiag : Bool
  sfpHeaderRaw : ShwSfpHeader
  sfp : Option ShwSfpCaldata

def diagnosticImplemented (head : ShwSfpHeader) : Bool := (head 92).getLsbD 6

def addrChangeReq (head : ShwSfpHeader) : Bool := (head 92).getLsbD 2

section Poll

/- the database, and `read_sfp_diag` -/
variable (calList : List ShwSfpCaldata) (readSfpDiag : Bool)

def halPortInsertSfp (ps : SfpPort) (read : HeaderRead) : SfpPort :=
  let (err, head) := shwSfpReadVerifyHeader ps.hwIndex read
  -- the module is not there any more
  if err = -2 then ps
  else
    let head := if err < 0 then emptyHeader else head
    { ps with
      sfpHeaderRaw := head
      hasSfpDiag := ps.hasSfpDiag ||
        (readSfpDiag && diagnosticImplemented head && !addrChangeReq head)
      sfp := shwSfpGetCalData calList head
      sfpPresent := true }

def halPortRemoveSfp (ps : SfpPort) : SfpPort :=
  { ps with sfp := none, sfpHeaderRaw := emptyHeader, hasSfpDiag := false, sfpPresent := false }

/-- `__old_mask` and the ports. -/
structure SfpPoll where
  oldMask : Word
  ports : Fin halMaxPorts → SfpPort

/-- What the hardware answers during a poll: the scan, and what is read for each port. -/
structure SfpScan where
  mask : Word
  read : Fin halMaxPorts → HeaderRead

/-- The bit of the port in `mask ^ __old_mask`. -/
def changed (s : SfpPoll) (scan : SfpScan) (i : Fin halMaxPorts) : Bool :=
  (scan.mask ^^^ s.oldMask).getLsbD (s.ports i).hwIndex

def halPortPollSfp (s : SfpPoll) (scan : SfpScan) : SfpPoll :=
  if scan.mask ≠ s.oldMask then
    { oldMask := scan.mask
      ports := fun i =>
        let ps := s.ports i
        if ps.inUse ∧ changed s scan i then
          if scan.mask.getLsbD ps.hwIndex then halPortInsertSfp calList readSfpDiag ps (scan.read i)
          else halPortRemoveSfp ps
        else ps }
  else s

/-- The insertion of port `i` is tried in this poll. -/
def Attempted (s : SfpPoll) (scan : SfpScan) (i : Fin halMaxPorts) : Prop :=
  scan.mask ≠ s.oldMask ∧ (s.ports i).inUse = true ∧ changed s scan i = true ∧
    scan.mask.getLsbD (s.ports i).hwIndex = true

/-- The ports at the start: no module is present. -/
def sfpInit (inUse : Fin halMaxPorts → Bool) (hwIndex : Fin halMaxPorts → Nat) : SfpPoll where
  oldMask := 0
  ports i := ⟨inUse i, hwIndex i, false, false, emptyHeader, none⟩

/-- The state before poll `n`. -/
def sfpRun (s : SfpPoll) (scans : Nat → SfpScan) : Nat → SfpPoll
  | 0 => s
  | n + 1 => halPortPollSfp calList readSfpDiag (sfpRun s scans n) (scans n)

end Poll

/-! ### Tracking -/

section Tracking

variable (calList : List ShwSfpCaldata) (readSfpDiag : Bool) (inUse : Fin halMaxPorts → Bool)
  (hwIndex : Fin halMaxPorts → Nat) (scans : Nat → SfpScan)

/-- The bit of port `i` in scan `n`. -/
def seen (n : Nat) (i : Fin halMaxPorts) : Bool := (scans n).mask.getLsbD (hwIndex i)

/-- The bit in the scan before. -/
def seenBefore : Nat → Fin halMaxPorts → Bool
  | 0, _ => false
  | n + 1, i => seen hwIndex scans n i

/-- After every poll each port is present exactly if the scan has its bit, or a later poll tries
the insertion while the bit is set, unless the bit is cleared first. -/
def SfpTracked : Prop :=
  ∀ n i, inUse i = true →
    ((sfpRun calList readSfpDiag (sfpInit inUse hwIndex) scans (n + 1)).ports i).sfpPresent =
        seen hwIndex scans n i ∨
      ∃ m > n, seen hwIndex scans m i = false ∨
        Attempted (sfpRun calList readSfpDiag (sfpInit inUse hwIndex) scans m) (scans m) i

/-- In poll `n` the bit of port `i` is new, and the scan behind it, before the header is read, does
not have it. -/
def Vanished (n : Nat) (i : Fin halMaxPorts) : Prop :=
  seen hwIndex scans n i = true ∧ seenBefore hwIndex scans n i = false ∧
    0 ≤ shwSfpId (hwIndex i) ∧ ((scans n).read i).scan.getLsbD (hwIndex i) = false

/-! ### One poll -/

private theorem shwSfpReadVerifyHeader_iff (num : Nat) (read : HeaderRead) :
    (shwSfpReadVerifyHeader num read).1 = -2 ↔
      0 ≤ shwSfpId num ∧ read.scan.getLsbD num = false := by
  have verified (head : ShwSfpHeader) : shwSfpHeaderVerify head ≠ -2 := by
    rw [shwSfpHeaderVerify]
    split <;> decide
  rw [shwSfpReadVerifyHeader]
  by_cases absent : shwSfpId num < 0
  · simp [absent]
  · by_cases gone : read.scan.getLsbD num = false
    · simp [absent, gone, Int.not_lt.mp absent]
    · cases header : read.header <;> simp [absent, gone, verified]

private theorem insert_sfpPresent (ps : SfpPort) (read : HeaderRead) :
    (halPortInsertSfp calList readSfpDiag ps read).sfpPresent =
      if 0 ≤ shwSfpId ps.hwIndex ∧ read.scan.getLsbD ps.hwIndex = false then ps.sfpPresent
      else true := by
  simp only [halPortInsertSfp, shwSfpReadVerifyHeader_iff]
  split <;> rfl

private theorem insert_static (ps : SfpPort) (read : HeaderRead) :
    (halPortInsertSfp calList readSfpDiag ps read).inUse = ps.inUse ∧
      (halPortInsertSfp calList readSfpDiag ps read).hwIndex = ps.hwIndex := by
  simp only [halPortInsertSfp]
  split <;> exact ⟨rfl, rfl⟩

private theorem poll_oldMask (s : SfpPoll) (scan : SfpScan) :
    (halPortPollSfp calList readSfpDiag s scan).oldMask = scan.mask := by
  rw [halPortPollSfp]
  split
  next => rfl
  next same => exact (not_not.mp same).symm

private theorem poll_static (s : SfpPoll) (scan : SfpScan) (i : Fin halMaxPorts) :
    ((halPortPollSfp calList readSfpDiag s scan).ports i).inUse = (s.ports i).inUse ∧
      ((halPortPollSfp calList readSfpDiag s scan).ports i).hwIndex = (s.ports i).hwIndex := by
  rw [halPortPollSfp]
  split
  next =>
    dsimp only
    split_ifs
    · exact insert_static calList readSfpDiag (s.ports i) (scan.read i)
    · exact ⟨rfl, rfl⟩
    · exact ⟨rfl, rfl⟩
  next => exact ⟨rfl, rfl⟩

/-- What a poll does to a port in use: nothing where the bit is as before. -/
theorem poll_sfpPresent (s : SfpPoll) (scan : SfpScan) (i : Fin halMaxPorts)
    (used : (s.ports i).inUse = true) :
    ((halPortPollSfp calList readSfpDiag s scan).ports i).sfpPresent =
      if scan.mask.getLsbD (s.ports i).hwIndex = s.oldMask.getLsbD (s.ports i).hwIndex then
        (s.ports i).sfpPresent
      else if scan.mask.getLsbD (s.ports i).hwIndex then
        (halPortInsertSfp calList readSfpDiag (s.ports i) (scan.read i)).sfpPresent
      else false := by
  have edge : changed s scan i = true ↔
      ¬scan.mask.getLsbD (s.ports i).hwIndex = s.oldMask.getLsbD (s.ports i).hwIndex := by
    rw [changed, BitVec.getLsbD_xor]
    cases scan.mask.getLsbD (s.ports i).hwIndex <;> cases s.oldMask.getLsbD (s.ports i).hwIndex <;>
      decide
  rw [halPortPollSfp]
  by_cases same : scan.mask = s.oldMask
  · rw [if_neg (not_not.mpr same), same, if_pos rfl]
  · rw [if_pos same]
    simp only [used, true_and, edge]
    split_ifs <;> rfl

/-! ### Runs -/

private theorem run_static (n : Nat) (i : Fin halMaxPorts) :
    ((sfpRun calList readSfpDiag (sfpInit inUse hwIndex) scans n).ports i).inUse = inUse i ∧
      ((sfpRun calList readSfpDiag (sfpInit inUse hwIndex) scans n).ports i).hwIndex =
        hwIndex i := by
  induction n with
  | zero => exact ⟨rfl, rfl⟩
  | succ n ih =>
    have step := poll_static calList readSfpDiag
      (sfpRun calList readSfpDiag (sfpInit inUse hwIndex) scans n) (scans n) i
    exact ⟨step.1.trans ih.1, step.2.trans ih.2⟩

private theorem run_oldMask (n : Nat) (i : Fin halMaxPorts) :
    (sfpRun calList readSfpDiag (sfpInit inUse hwIndex) scans n).oldMask.getLsbD (hwIndex i) =
      seenBefore hwIndex scans n i := by
  cases n with
  | zero => exact BitVec.getLsbD_zero
  | succ n =>
    rw [sfpRun, poll_oldMask]
    rfl

/-- The port after poll `n`, from the scan, the one before and what the port was. -/
theorem run_sfpPresent (n : Nat) (i : Fin halMaxPorts) (used : inUse i = true) :
    ((sfpRun calList readSfpDiag (sfpInit inUse hwIndex) scans (n + 1)).ports i).sfpPresent =
      if seen hwIndex scans n i = seenBefore hwIndex scans n i then
        ((sfpRun calList readSfpDiag (sfpInit inUse hwIndex) scans n).ports i).sfpPresent
      else if seen hwIndex scans n i then
        if 0 ≤ shwSfpId (hwIndex i) ∧ ((scans n).read i).scan.getLsbD (hwIndex i) = false then
          ((sfpRun calList readSfpDiag (sfpInit inUse hwIndex) scans n).ports i).sfpPresent
        else true
      else false := by
  obtain ⟨used', index⟩ := run_static calList readSfpDiag inUse hwIndex scans n i
  rw [sfpRun, poll_sfpPresent calList readSfpDiag _ _ i (used'.trans used), insert_sfpPresent,
    index, run_oldMask]
  rfl

/-- A port is never present without its bit. -/
theorem run_absent (n : Nat) (i : Fin halMaxPorts) (used : inUse i = true)
    (clear : seenBefore hwIndex scans n i = false) :
    ((sfpRun calList readSfpDiag (sfpInit inUse hwIndex) scans n).ports i).sfpPresent = false := by
  induction n with
  | zero => rfl
  | succ n ih =>
    have clear' : seen hwIndex scans n i = false := clear
    rw [run_sfpPresent calList readSfpDiag inUse hwIndex scans n i used, clear']
    split
    next same => exact ih same.symm
    next => rfl

/-- An SFP that has vanished is no longer marked as present. -/
theorem Vanished.absent {n : Nat} {i : Fin halMaxPorts} (vanished : Vanished hwIndex scans n i)
    (used : inUse i = true) :
    ((sfpRun calList readSfpDiag (sfpInit inUse hwIndex) scans (n + 1)).ports i).sfpPresent =
      false := by
  obtain ⟨bit, before, valid, gone⟩ := vanished
  rw [run_sfpPresent calList readSfpDiag inUse hwIndex scans n i used, bit, before,
    if_neg (by decide), if_pos rfl, if_pos ⟨valid, gone⟩]
  exact run_absent calList readSfpDiag inUse hwIndex scans n i used before

/-- A port that is absent although its bit is set has vanished since the bit came. -/
theorem run_lost (n : Nat) (i : Fin halMaxPorts) (used : inUse i = true)
    (bit : seen hwIndex scans n i = true)
    (absent : ((sfpRun calList readSfpDiag (sfpInit inUse hwIndex) scans (n + 1)).ports
      i).sfpPresent = false) :
    ∃ k ≤ n, Vanished hwIndex scans k i ∧ ∀ m, k ≤ m → m ≤ n → seen hwIndex scans m i = true := by
  have step := run_sfpPresent calList readSfpDiag inUse hwIndex scans n i used
  rw [absent, bit] at step
  induction n with
  | zero =>
    have first : seenBefore hwIndex scans 0 i = false := rfl
    rw [first, if_neg (by decide), if_pos rfl] at step
    split at step
    next gone =>
      -- the port was lost in the first poll
      refine ⟨0, le_rfl, ⟨bit, first, gone⟩, fun m _ upTo => ?_⟩
      rwa [Nat.le_zero.mp upTo]
    next => cases step
  | succ n ih =>
    by_cases before : seenBefore hwIndex scans (n + 1) i = true
    · -- no edge in this poll, so the port was already lost
      rw [before, if_pos rfl] at step
      have bit' : seen hwIndex scans n i = true := before
      have earlier := run_sfpPresent calList readSfpDiag inUse hwIndex scans n i used
      rw [← step, bit'] at earlier
      obtain ⟨k, bound, vanished, stays⟩ := ih bit' step.symm earlier
      refine ⟨k, Nat.le_succ_of_le bound, vanished, fun m from_k upTo => ?_⟩
      rcases Nat.le_succ_iff.mp upTo with inside | rfl
      · exact stays m from_k inside
      · exact bit
    · rw [Bool.not_eq_true] at before
      rw [before, if_neg (by decide), if_pos rfl] at step
      split at step
      next gone =>
        -- the port was lost in this poll
        refine ⟨n + 1, le_rfl, ⟨bit, before, gone⟩, fun m from_n upTo => ?_⟩
        rwa [Nat.le_antisymm upTo from_n]
      next => cases step

/-! ### The exact condition -/

/-- While the bit stays there is no edge, and without an edge no insertion is tried. -/
theorem attempted_clear {m : Nat} {i : Fin halMaxPorts}
    (attempted : Attempted (sfpRun calList readSfpDiag (sfpInit inUse hwIndex) scans m) (scans m)
      i) : seenBefore hwIndex scans m i = false := by
  obtain ⟨-, -, edge, bit⟩ := attempted
  rw [changed, BitVec.getLsbD_xor, bit] at edge
  rw [(run_static calList readSfpDiag inUse hwIndex scans m i).2, run_oldMask] at edge
  simpa using edge

private theorem Vanished.untracked {k : Nat} {i : Fin halMaxPorts}
    (vanished : Vanished hwIndex scans k i)
    (used : inUse i = true) (stays : ∀ m > k, seen hwIndex scans m i = true) :
    ¬SfpTracked calList readSfpDiag inUse hwIndex scans := by
  intro tracked
  have stays' (m : Nat) (from_k : k ≤ m) : seen hwIndex scans m i = true := by
    rcases Nat.eq_or_lt_of_le from_k with rfl | later
    · exact vanished.1
    · exact stays m later
  rcases tracked k i used with present | ⟨m, later, clear | attempted⟩
  · rw [vanished.absent calList readSfpDiag inUse hwIndex scans used, vanished.1] at present
    cases present
  · exact absurd clear (by simp [stays m later])
  · obtain ⟨m, rfl⟩ := Nat.exists_eq_add_one_of_ne_zero (Nat.ne_zero_of_lt later)
    have clear : seen hwIndex scans m i = false :=
      attempted_clear calList readSfpDiag inUse hwIndex scans attempted
    exact absurd clear (by simp [stays' m (Nat.le_of_lt_succ later)])

/-- Insertions are tracked exactly if every module that vanishes while it is inserted stays away
until a scan has seen that. -/
theorem sfp_tracked_iff :
    SfpTracked calList readSfpDiag inUse hwIndex scans ↔
      ∀ k i, inUse i = true → Vanished hwIndex scans k i →
        ∃ m > k, seen hwIndex scans m i = false := by
  constructor
  · intro tracked k i used vanished
    -- seen from then on, the port would be lost for good
    by_contra never
    push Not at never
    have stays (m : Nat) (later : m > k) : seen hwIndex scans m i = true := by
      simpa using never m later
    exact vanished.untracked calList readSfpDiag inUse hwIndex scans used stays tracked
  · intro away n i used
    cases bit : seen hwIndex scans n i with
    | false => exact .inl (run_absent calList readSfpDiag inUse hwIndex scans (n + 1) i used bit)
    | true =>
      cases present : ((sfpRun calList readSfpDiag (sfpInit inUse hwIndex) scans (n + 1)).ports
          i).sfpPresent with
      | true => exact .inl rfl
      | false =>
        -- the poll in which it vanished, and one in which it was not seen
        obtain ⟨k, bound, vanished, stays⟩ :=
          run_lost calList readSfpDiag inUse hwIndex scans n i used bit present
        obtain ⟨m, later, clear⟩ := away k i used vanished
        refine .inr ⟨m, ?_, .inl clear⟩
        by_contra early
        rw [stays m later.le (Nat.not_lt.mp early)] at clear
        cases clear

end Tracking

/-! ### A lost insertion -/

/-- All scans see the module of port 0; only the one behind the first, before its header is read,
does not. -/
def flicker (n : Nat) : SfpScan where
  mask := 1
  read _ := ⟨if n = 0 then 0 else 1, some emptyHeader⟩

/-- An SFP that is not seen just when its header is to be read stays untracked. -/
theorem flicker_untracked : ¬SfpTracked [] false (fun _ => true) (fun i => i.val) flicker :=
  Vanished.untracked (k := 0) (i := ⟨0, by decide⟩) [] false (fun _ => true) (fun i => i.val)
    flicker ⟨rfl, rfl, by decide, rfl⟩ rfl
    fun _ _ => show (1 : Word).getLsbD 0 = true by decide

end WrSwitch.Hal
