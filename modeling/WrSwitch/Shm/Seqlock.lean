import WrSwitch.Machine.Run
import Mathlib.Logic.Function.Basic
import Mathlib.Data.Nat.Bitwise

/-!
# The sequence lock of the shared segments

`wrs_shm_write`, `wrs_shm_seqbegin`, `wrs_shm_seqretry` and the part of `wrs_shm_get` that
touches a segment another process may be reading, one memory access at a time.
-/
namespace WrSwitch.Shm

open Machine

abbrev Word := BitVec 32

/-! ### The segment and its users -/

/-- Where the writer stands. `dead` also records whether it left a round unfinished. -/
inductive WriterPc
  | idle
  /-- between the two updates of `wrs_shm_write(BEGIN)` -/
  | begun
  | storing
  /-- between the two updates of `wrs_shm_write(END)` -/
  | ending
  | dead (torn : Bool)
  /-- a new writer inside `wrs_shm_get`, while it clears a segment mapped elsewhere -/
  | entering
deriving DecidableEq

/-- A reader between `wrs_shm_seqbegin` and `wrs_shm_seqretry`, with what it has loaded. -/
structure Section where
  start : Word
  loads : List (Nat × Word)
deriving DecidableEq

structure ShmState where
  sequence : Word
  data : Nat → Word
  writer : WriterPc
  /-- how many rounds have begun -/
  rounds : Nat
  /-- the data at the end of each completed round, the last one first -/
  completed : List (Nat → Word)
  reader : Option Section
  /-- the loads of the sections for which `wrs_shm_seqretry` returned 0 -/
  accepted : List (List (Nat × Word))

def wrsShmLockMask : Word := 0x0001

/-- One access of one of the parties. -/
inductive ShmStep
  | begin1
  | begin2
  | store (a : Nat) (v : Word)
  | end1
  | end2
  | die
  | clearSequence
  | clear (a : Nat)
  | enter (locked : Bool)
  | seqbegin
  | load (a : Nat)
  | seqretry

/-- `wrs_shm_seqretry`, given the sequence it loads. -/
def wrsShmSeqretry (sequence start : Word) : Int :=
  if start &&& wrsShmLockMask ≠ 0 then 1 else if sequence ≠ start then 1 else 0

/-- A new writer gets past the check of `pid` only when there is no live one. -/
def WriterPc.Free : WriterPc → Prop
  | .dead _ | .entering => True
  | .idle | .begun | .storing | .ending => False

instance : ∀ pc : WriterPc, Decidable pc.Free
  | .dead _ | .entering => isTrue trivial
  | .idle | .begun | .storing | .ending => isFalse id

/-- What a writer that stops here leaves behind. -/
def WriterPc.die : WriterPc → WriterPc
  | .idle | .begun => .dead false
  | .storing | .ending => .dead true
  | .dead torn => .dead torn
  | .entering => .entering

/-- An access by a party that is not at that point of its code changes nothing. -/
def shmStep (s : ShmState) : ShmStep → ShmState
  | .begin1 =>
    if s.writer = .idle then
      { s with sequence := s.sequence + 2, writer := .begun, rounds := s.rounds + 1 }
    else s
  | .begin2 =>
    if s.writer = .begun then
      { s with sequence := s.sequence ||| wrsShmLockMask, writer := .storing }
    else s
  | .store a v =>
    if s.writer = .storing then { s with data := Function.update s.data a v } else s
  | .end1 =>
    if s.writer = .storing then { s with sequence := s.sequence + 2, writer := .ending } else s
  | .end2 =>
    if s.writer = .ending then
      { s with sequence := s.sequence &&& ~~~wrsShmLockMask, writer := .idle,
               completed := s.data :: s.completed }
    else s
  | .die => { s with writer := s.writer.die }
  | .clearSequence =>
    if s.writer.Free then { s with sequence := 0, writer := .entering } else s
  | .clear a =>
    if s.writer.Free then
      { s with data := Function.update s.data a 0, writer := .entering }
    else s
  | .enter locked =>
    if s.writer.Free then
      { s with sequence := if locked then 1 else 0, writer := if locked then .storing else .idle }
    else s
  | .seqbegin => { s with reader := some ⟨s.sequence, []⟩ }
  | .load a =>
    { s with reader := s.reader.map fun sec => { sec with loads := (a, s.data a) :: sec.loads } }
  | .seqretry =>
    match s.reader with
    | none => s
    | some sec =>
      { s with reader := none,
               accepted := if wrsShmSeqretry s.sequence sec.start = 0 then sec.loads :: s.accepted
                 else s.accepted }

/-- The first writer has just left `wrs_shm_get` with the segment locked. -/
def shmStart (data : Nat → Word) : ShmState where
  sequence := 1
  data := data
  writer := .storing
  rounds := 0
  completed := []
  reader := none
  accepted := []

/-- The loads of every accepted section are the values of one completed round. -/
def Consistent (s : ShmState) : Prop :=
  ∀ loads ∈ s.accepted, ∃ snapshot ∈ s.completed, ∀ x ∈ loads, x.2 = snapshot x.1

/-- No `wrs_shm_get` overlaps a section of the reader, one without `WRS_SHM_LOCKED` follows
a writer that finished its rounds, and there are fewer than `2 ^ 30` rounds. -/
def Apart (s : ShmState) : ShmStep → Prop
  | .begin1 => s.rounds + 1 < 2 ^ 30
  | .clearSequence | .clear _ => s.reader = none
  | .enter locked => s.reader = none ∧ (locked = true ∨ s.writer = .dead false)
  | .seqbegin => s.writer ≠ .entering
  | .begin2 | .store _ _ | .end1 | .end2 | .die | .load _ | .seqretry => True

instance (s : ShmState) : ∀ e, Decidable (Apart s e)
  | .begin1 => inferInstanceAs (Decidable (_ < _))
  | .clearSequence | .clear _ => inferInstanceAs (Decidable (_ = _))
  | .enter _ => inferInstanceAs (Decidable (_ ∧ (_ ∨ _)))
  | .seqbegin => inferInstanceAs (Decidable (_ ≠ _))
  | .begin2 | .store _ _ | .end1 | .end2 | .die | .load _ | .seqretry => isTrue trivial

/-! ### Arithmetic of the sequence -/

private theorem lock_of_even {x : Word} (even : x.toNat % 2 = 0) :
    (x ||| wrsShmLockMask).toNat = x.toNat + 1 := by
  have clear : x &&& wrsShmLockMask = 0 := by
    apply BitVec.eq_of_toNat_eq
    rw [BitVec.toNat_and]
    exact (Nat.and_one_is_mod _).trans even
  have bound := x.isLt
  rw [← BitVec.add_eq_or_of_and_eq_zero _ _ clear, BitVec.toNat_add]
  exact Nat.mod_eq_of_lt (by change x.toNat + 1 < 2 ^ 32; omega)

private theorem unlock_of_odd {x : Word} (odd : x.toNat % 2 = 1) :
    (x &&& ~~~wrsShmLockMask).toNat + 1 = x.toNat := by
  have halved : x &&& ~~~wrsShmLockMask = (x >>> 1) <<< 1 := by
    apply BitVec.eq_of_getLsbD_eq
    intro i bound
    have mask : wrsShmLockMask.getLsbD i = decide (i = 0) := by
      simp [wrsShmLockMask]
    simp only [BitVec.getLsbD_and, BitVec.getLsbD_not, BitVec.getLsbD_shiftLeft,
      BitVec.getLsbD_ushiftRight, bound, decide_true, Bool.true_and, mask]
    cases i with
    | zero => simp
    | succ i => simp [Nat.add_comm]
  have bound := x.isLt
  rw [halved, BitVec.toNat_shiftLeft, BitVec.toNat_ushiftRight, Nat.shiftRight_eq_div_pow,
    Nat.shiftLeft_eq]
  omega

private theorem locked_iff_odd (x : Word) : x &&& wrsShmLockMask ≠ 0 ↔ x.toNat % 2 = 1 := by
  have bit : (x &&& wrsShmLockMask).toNat = x.toNat % 2 := by
    rw [BitVec.toNat_and]
    exact Nat.and_one_is_mod _
  rw [ne_eq, ← BitVec.toNat_inj, bit]
  change ¬x.toNat % 2 = 0 ↔ _
  omega

private theorem wrsShmSeqretry_eq_zero (sequence start : Word) :
    wrsShmSeqretry sequence start = 0 ↔ start.toNat % 2 = 0 ∧ sequence = start := by
  unfold wrsShmSeqretry
  by_cases locked : start &&& wrsShmLockMask ≠ 0
  · have odd := (locked_iff_odd start).mp locked
    rw [if_pos locked]
    omega
  · have even : start.toNat % 2 = 0 := by
      rw [locked_iff_odd] at locked
      omega
    rw [if_neg locked]
    split
    next differ => simp [differ]
    next same => simp [even, not_not.mp same]

/-- The sequence after `t` updates since a locked `wrs_shm_get`: 1, 3, 2, 4, 5, 7, 6, 8, … -/
def seqAt (t : Nat) : Nat := t + if t % 4 = 2 then 0 else if t % 4 = 1 then 2 else 1

private theorem seqAt_storing {t : Nat} (storing : t % 4 = 0) :
    seqAt t = t + 1 := by simp [seqAt, storing]
private theorem seqAt_ending {t : Nat} (ending : t % 4 = 1) :
    seqAt t = t + 2 := by simp [seqAt, ending]
private theorem seqAt_idle {t : Nat} (idle : t % 4 = 2) : seqAt t = t := by simp [seqAt, idle]
private theorem seqAt_begun {t : Nat} (begun : t % 4 = 3) :
    seqAt t = t + 1 := by simp [seqAt, begun]

/-- The sequence takes no value twice. -/
theorem seqAt_inj {a b : Nat} (same : seqAt a = seqAt b) : a = b := by
  unfold seqAt at same
  split at same <;> split at same <;> (try split at same) <;> (try split at same) <;> omega

/-- The sequence is even exactly while no data may change. -/
theorem seqAt_even (t : Nat) : seqAt t % 2 = 0 ↔ 2 ≤ t % 4 := by
  unfold seqAt
  split
  · omega
  · split <;> omega

/-! ### The invariant -/

/-- The writer after `t` updates of the sequence. -/
def WriterPc.At : WriterPc → Nat → Prop
  | .storing, t => t % 4 = 0
  | .ending, t => t % 4 = 1
  | .idle, t => t % 4 = 2
  | .begun, t => t % 4 = 3
  | .dead true, t => t % 4 < 2
  | .dead false, t => 2 ≤ t % 4
  | .entering, _ => False

/-- The segment after `t` updates of the sequence since the last `wrs_shm_get`, which is
counted from `2` when that call did not lock it. -/
structure Epoch (s : ShmState) (off t : Nat) : Prop where
  base : off = 0 ∨ off = 2
  seq : s.sequence.toNat + off = seqAt t
  bound : t ≤ 4 * s.rounds + 2
  place : s.writer.At t
  clean : 2 ≤ t % 4 → s.completed.head? = some s.data
  opened : ∀ sec ∈ s.reader, ∃ t₀ ≤ t, sec.start.toNat + off = seqAt t₀ ∧
    (t₀ = t → 2 ≤ t % 4 → ∀ x ∈ sec.loads, x.2 = s.data x.1)

structure SeqlockInv (s : ShmState) : Prop where
  few : s.rounds < 2 ^ 30
  consistent : Consistent s
  phase : (∃ off t, Epoch s off t) ∨ s.writer = .entering ∧ s.reader = none

/-- But for a new writer that has not finished, the segment is in some epoch. -/
theorem SeqlockInv.epoch {s : ShmState} (inv : SeqlockInv s) {pc : WriterPc} (at_pc : s.writer = pc)
    (entered : pc ≠ .entering) : ∃ off t, Epoch s off t ∧ pc.At t := by
  rcases inv.phase with ⟨off, t, epoch⟩ | ⟨entering, _⟩
  · exact ⟨off, t, epoch, at_pc ▸ epoch.place⟩
  · exact absurd (at_pc.symm.trans entering) entered

/-- After one more update of the sequence an open section cannot be accepted any more. -/
theorem Epoch.tick {s s' : ShmState} {off t : Nat} (epoch : Epoch s off t)
    (reader : s'.reader = s.reader) (seq : s'.sequence.toNat + off = seqAt (t + 1))
    (bound : t + 1 ≤ 4 * s'.rounds + 2) (place : s'.writer.At (t + 1))
    (clean : 2 ≤ (t + 1) % 4 → s'.completed.head? = some s'.data) : Epoch s' off (t + 1) where
  base := epoch.base
  seq := seq
  bound := bound
  place := place
  clean := clean
  opened := by
    intro sec mem
    rw [reader] at mem
    obtain ⟨t₀, before, start, _⟩ := epoch.opened sec mem
    refine ⟨t₀, by omega, start, ?_⟩
    intro now
    omega

/-! ### The writer -/

private theorem add_two_toNat {x : Word} (fits : x.toNat + 2 < 2 ^ 32) :
    (x + 2).toNat = x.toNat + 2 := by
  rw [BitVec.toNat_add]
  exact Nat.mod_eq_of_lt fits

private theorem begin1_inv {s : ShmState} (inv : SeqlockInv s) (few : s.rounds + 1 < 2 ^ 30) :
    SeqlockInv (shmStep s .begin1) := by
  simp only [shmStep]
  split
  next idle =>
    obtain ⟨off, t, epoch, place⟩ := inv.epoch idle (by decide)
    -- the four steps of a write are told apart by the count modulo 4
    have residue : t % 4 = 2 := place
    have seq := epoch.seq
    have bound := epoch.bound
    rw [seqAt_idle residue] at seq
    refine ⟨few, inv.consistent, .inl ⟨off, t + 1, epoch.tick rfl ?_ ?_ ?_ ?_⟩⟩
    · rw [add_two_toNat (by omega)]
      rw [seqAt_begun (by omega)]
      omega
    · change t + 1 ≤ 4 * (s.rounds + 1) + 2
      omega
    · change (t + 1) % 4 = 3
      omega
    · exact fun _ => epoch.clean (by omega)
  next => exact inv

private theorem begin2_inv {s : ShmState} (inv : SeqlockInv s) :
    SeqlockInv (shmStep s .begin2) := by
  simp only [shmStep]
  split
  next begun =>
    obtain ⟨off, t, epoch, place⟩ := inv.epoch begun (by decide)
    have residue : t % 4 = 3 := place
    have seq := epoch.seq
    have bound := epoch.bound
    have base := epoch.base
    rw [seqAt_begun residue] at seq
    refine ⟨inv.few, inv.consistent, .inl ⟨off, t + 1, epoch.tick rfl ?_ ?_ ?_ ?_⟩⟩
    · rw [lock_of_even (by omega)]
      rw [seqAt_storing (by omega)]
      omega
    · change t + 1 ≤ 4 * s.rounds + 2
      omega
    · change (t + 1) % 4 = 0
      omega
    · intro settled
      omega
  next => exact inv

private theorem store_inv {s : ShmState} (inv : SeqlockInv s) (a : Nat) (v : Word) :
    SeqlockInv (shmStep s (.store a v)) := by
  simp only [shmStep]
  split
  next storing =>
    obtain ⟨off, t, epoch, place⟩ := inv.epoch storing (by decide)
    have residue : t % 4 = 0 := place
    refine ⟨inv.few, inv.consistent, .inl
      ⟨off, t, epoch.base, epoch.seq, epoch.bound, epoch.place, ?_, ?_⟩⟩
    -- the sequence is odd, so nothing is promised about the data
    · intro settled
      omega
    · intro sec mem
      obtain ⟨t₀, before, start, _⟩ := epoch.opened sec mem
      refine ⟨t₀, before, start, ?_⟩
      intro _ settled
      omega
  next => exact inv

private theorem end1_inv {s : ShmState} (inv : SeqlockInv s) : SeqlockInv (shmStep s .end1) := by
  simp only [shmStep]
  split
  next storing =>
    obtain ⟨off, t, epoch, place⟩ := inv.epoch storing (by decide)
    -- the number is raised under the lock, so it stays odd
    have residue : t % 4 = 0 := place
    have seq := epoch.seq
    have bound := epoch.bound
    have few := inv.few
    rw [seqAt_storing residue] at seq
    refine ⟨inv.few, inv.consistent, .inl ⟨off, t + 1, epoch.tick rfl ?_ ?_ ?_ ?_⟩⟩
    · rw [add_two_toNat (by omega)]
      rw [seqAt_ending (by omega)]
      omega
    · change t + 1 ≤ 4 * s.rounds + 2
      omega
    · change (t + 1) % 4 = 1
      omega
    · intro settled
      omega
  next => exact inv

/-- The end of a round is what the readers may see from now on. -/
theorem end2_inv {s : ShmState} (inv : SeqlockInv s) : SeqlockInv (shmStep s .end2) := by
  simp only [shmStep]
  split
  next ending =>
    obtain ⟨off, t, epoch, place⟩ := inv.epoch ending (by decide)
    have residue : t % 4 = 1 := place
    have seq := epoch.seq
    have bound := epoch.bound
    have base := epoch.base
    rw [seqAt_ending residue] at seq
    refine ⟨inv.few, ?_, .inl ⟨off, t + 1, epoch.tick rfl ?_ ?_ ?_ (fun _ => rfl)⟩⟩
    · intro loads mem
      obtain ⟨snapshot, old, agree⟩ := inv.consistent loads mem
      exact ⟨snapshot, List.mem_cons_of_mem _ old, agree⟩
    -- without the lock bit the sequence is even again
    · have unlocked := unlock_of_odd (x := s.sequence) (by omega)
      rw [seqAt_idle (by omega)]
      dsimp only
      omega
    · change t + 1 ≤ 4 * s.rounds + 2
      omega
    · change (t + 1) % 4 = 2
      omega
  next => exact inv

private theorem die_inv {s : ShmState} (inv : SeqlockInv s) : SeqlockInv (shmStep s .die) := by
  refine ⟨inv.few, inv.consistent, ?_⟩
  rcases inv.phase with ⟨off, t, epoch⟩ | ⟨entering, noReader⟩
  · refine .inl ⟨off, t, epoch.base, epoch.seq, epoch.bound, ?_, epoch.clean, epoch.opened⟩
    have place := epoch.place
    simp only [shmStep]
    cases writer : s.writer with
    | idle | begun | storing | ending =>
      rw [writer] at place
      simp only [WriterPc.die, WriterPc.At] at place ⊢
      omega
    | dead torn =>
      rw [writer] at place
      exact place
    | entering =>
      rw [writer] at place
      exact place.elim
  · exact .inr ⟨by simp [shmStep, entering, WriterPc.die], noReader⟩

/-! ### A new writer -/

/-- While a new writer clears the segment, no section is open. -/
theorem clearSequence_inv {s : ShmState} (inv : SeqlockInv s) (alone : s.reader = none) :
    SeqlockInv (shmStep s .clearSequence) := by
  simp only [shmStep]
  split
  next => exact ⟨inv.few, inv.consistent, .inr ⟨rfl, alone⟩⟩
  next => exact inv

private theorem clear_inv {s : ShmState} (inv : SeqlockInv s) (a : Nat) (alone : s.reader = none) :
    SeqlockInv (shmStep s (.clear a)) := by
  simp only [shmStep]
  split
  next => exact ⟨inv.few, inv.consistent, .inr ⟨rfl, alone⟩⟩
  next => exact inv

/-- The count of updates starts again, which no open section can notice. -/
theorem enter_inv {s : ShmState} (inv : SeqlockInv s) (locked : Bool) (alone : s.reader = none)
    (whole : locked = true ∨ s.writer = .dead false) : SeqlockInv (shmStep s (.enter locked)) := by
  have noSection (P : Section → Prop) : ∀ sec ∈ s.reader, P sec := by
    rw [alone]
    intro sec impossible
    cases impossible
  simp only [shmStep]
  split
  next free =>
    refine ⟨inv.few, inv.consistent, .inl ?_⟩
    -- a locked segment may hold anything, its writer is still storing; else it must be whole
    cases locked with
    | true =>
      refine ⟨0, 0, .inl rfl, rfl, Nat.zero_le _, rfl, ?_, noSection _⟩
      intro settled
      omega
    | false =>
      have unbroken := whole.resolve_left Bool.false_ne_true
      obtain ⟨off, t, epoch, place⟩ := inv.epoch unbroken (by decide)
      exact ⟨2, 2, .inr rfl, rfl, Nat.le_add_left 2 _, rfl, fun _ => epoch.clean place,
        noSection _⟩
  next => exact inv

/-! ### The reader -/

private theorem seqbegin_inv {s : ShmState} (inv : SeqlockInv s) (settled : s.writer ≠ .entering) :
    SeqlockInv (shmStep s .seqbegin) := by
  obtain ⟨off, t, epoch, _⟩ := inv.epoch rfl settled
  refine ⟨inv.few, inv.consistent, .inl
    ⟨off, t, epoch.base, epoch.seq, epoch.bound, epoch.place, epoch.clean, ?_⟩⟩
  rintro sec ⟨⟩
  refine ⟨t, Nat.le_refl t, epoch.seq, ?_⟩
  intro _ _ x impossible
  cases impossible

private theorem load_inv {s : ShmState} (inv : SeqlockInv s) (a : Nat) :
    SeqlockInv (shmStep s (.load a)) := by
  refine ⟨inv.few, inv.consistent, ?_⟩
  rcases inv.phase with ⟨off, t, epoch⟩ | ⟨entering, alone⟩
  · refine .inl ⟨off, t, epoch.base, epoch.seq, epoch.bound, epoch.place, epoch.clean, ?_⟩
    intro sec mem
    obtain ⟨before, opened, rfl⟩ := Option.map_eq_some_iff.mp (Option.mem_def.mp mem)
    obtain ⟨t₀, le, start, agree⟩ := epoch.opened before opened
    refine ⟨t₀, le, start, ?_⟩
    intro now settled x loaded
    rcases List.mem_cons.mp loaded with rfl | earlier
    · rfl
    · exact agree now settled x earlier
  · exact .inr ⟨entering, by simp [shmStep, alone]⟩

/-- An accepted section began and ended at the same count of updates. -/
theorem seqretry_inv {s : ShmState} (inv : SeqlockInv s) : SeqlockInv (shmStep s .seqretry) := by
  simp only [shmStep]
  cases opened : s.reader with
  | none =>
    simp only
    exact inv
  | some sec =>
    refine ⟨inv.few, ?_, ?_⟩
    · intro loads mem
      simp only at mem
      split at mem
      next accepted =>
        rcases List.mem_cons.mp mem with rfl | earlier
        -- an even counter that did not move means that no write came between
        · obtain ⟨even, same⟩ := (wrsShmSeqretry_eq_zero _ _).mp accepted
          rcases inv.phase with ⟨off, t, epoch⟩ | ⟨_, alone⟩
          · obtain ⟨t₀, _, start, agree⟩ := epoch.opened sec opened
            have seq := epoch.seq
            have base := epoch.base
            rw [same] at seq
            have now : t₀ = t := seqAt_inj (start.symm.trans seq)
            have settled : 2 ≤ t % 4 := (seqAt_even t).mp (by omega)
            exact ⟨s.data, List.mem_of_mem_head? (epoch.clean settled), agree now settled⟩
          · rw [opened] at alone
            cases alone
        · exact inv.consistent loads earlier
      next => exact inv.consistent loads mem
    · rcases inv.phase with ⟨off, t, epoch⟩ | ⟨entering, _⟩
      · refine .inl ⟨off, t, epoch.base, epoch.seq, epoch.bound, epoch.place, epoch.clean, ?_⟩
        intro sec impossible
        cases impossible
      · exact .inr ⟨entering, rfl⟩

/-! ### Runs -/

private theorem shmStep_inv (s : ShmState) (e : ShmStep) (inv : SeqlockInv s) (apart : Apart s e) :
    SeqlockInv (shmStep s e) := by
  cases e with
  | begin1 => exact begin1_inv inv apart
  | begin2 => exact begin2_inv inv
  | store a v => exact store_inv inv a v
  | end1 => exact end1_inv inv
  | end2 => exact end2_inv inv
  | die => exact die_inv inv
  | clearSequence => exact clearSequence_inv inv apart
  | clear a => exact clear_inv inv a apart
  | enter locked => exact enter_inv inv locked apart.1 apart.2
  | seqbegin => exact seqbegin_inv inv apart
  | load a => exact load_inv inv a
  | seqretry => exact seqretry_inv inv

private theorem shmStart_inv (data : Nat → Word) : SeqlockInv (shmStart data) where
  few := Nat.two_pow_pos 30
  consistent := fun _ impossible => by cases impossible
  phase := by
    refine .inl ⟨0, 0, .inl rfl, rfl, Nat.zero_le _, rfl, ?_, ?_⟩
    · intro settled
      omega
    · intro sec impossible
      cases impossible

/-- In every interleaving that keeps each `wrs_shm_get` apart from the sections of the
reader, every accepted section saw one completed round. -/
theorem seqlock_consistent (data : Nat → Word) (steps : List ShmStep)
    (apart : Along Apart shmStep (shmStart data) steps) :
    Consistent (run shmStep (shmStart data) steps) :=
  (run_invariant SeqlockInv Apart shmStep shmStep_inv (shmStart data) steps (shmStart_inv data)
    apart).consistent

/-- The writer stores the value in two cells and ends the round. -/
def storeBoth (v : Word) : List ShmStep := [.store 0 v, .store 1 v, .end1, .end2]

/-- A restart between two sections of the reader. -/
theorem seqlock_consistent_restart :
    Consistent (run shmStep (shmStart fun _ => 0)
      (storeBoth 1 ++ [.seqbegin, .load 0, .load 1, .seqretry, .die, .enter true] ++
        storeBoth 2 ++ [.seqbegin, .load 0, .load 1, .seqretry])) :=
  seqlock_consistent (fun _ => 0) _ (by decide)

/-- A restart inside a section: the new writer brings the sequence back to the value the
reader began with, and the reader accepts one value of each writer. -/
theorem seqlock_torn :
    ¬Consistent (run shmStep (shmStart fun _ => 0)
      (storeBoth 1 ++ [.seqbegin, .load 0, .die, .enter true] ++ storeBoth 2 ++
        [.load 1, .seqretry])) := by
  intro consistent
  obtain ⟨snapshot, completed, agree⟩ := consistent [(1, 2), (0, 1)] (by decide)
  have second : snapshot 1 = 2 := (agree (1, 2) (by decide)).symm
  have first : snapshot 0 = 1 := (agree (0, 1) (by decide)).symm
  rcases List.mem_cons.mp completed with rfl | older
  · exact absurd first (by decide)
  · obtain rfl := List.mem_singleton.mp older
    exact absurd second (by decide)

end WrSwitch.Shm
