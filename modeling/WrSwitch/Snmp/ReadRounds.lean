import WrSwitch.Shm.Seqlock

/-!
# Reading shared memory in rounds

The loops of the table functions of snmpd: `wrs_shm_seqbegin`, a pass over the shared data,
`wrs_shm_seqretry`, until a pass was consistent.
-/
namespace WrSwitch.Snmp

open Shm

/-! ### What the tables hold -/

/-- A cell of a table. -/
inductive Cell
  | int (v : Int)
  | text (s : List Char)
  | bytes (b : List (BitVec 8))
deriving DecidableEq

/-- Constants of ppsi, which shares its memory with snmpd. -/
structure PpsiCodes where
  ppsDisabled : Int
  ppsMaster : Int
  ppsUncalibrated : Int
  ppsSlave : Int
  ppsiExtWr : Int
  ppsiExtL1s : Int
  ppExstateDisable : Int
  ppExstatePtp : Int
  ppsiExtAutonegEnable : Int
  ppsiProfilePtp : Int
  ppsiProfileHaWr : Int
  ppsiProfileCustom : Int
  /-- the initializer of `servoStateMapping`, which the states of a servo index -/
  servoStateMapping : List Int
  wrhServoStateName : Int → List Char

def int32Max : Int := 2147483647

def int32Min : Int := -2147483648

def intSaturate (value : Int) : Int :=
  if int32Max ≤ value then int32Max else if value ≤ int32Min then int32Min else value

/-! ### The loops -/

variable {σ α : Type*}

/-- A round: the sequence at its begin and at its end, and what the pass between them read. -/
structure Round (α : Type*) where
  start : Word
  sequence : Word
  read : α

def Round.Discarded (r : Round α) : Prop := wrsShmSeqretry r.sequence r.start ≠ 0

instance (r : Round α) : Decidable r.Discarded := inferInstanceAs (Decidable (_ ≠ _))

def maxRetries : Nat := 100

/-- The `while (1)` loop over the rounds, with `pass` as its body. Some loops give up after
`maxRetries` rounds (`givesUp`), others only count from 0 again. While the rounds go on there is
no result. -/
def readRounds (givesUp : Bool) (pass : σ → α → σ) : Nat → σ → List (Round α) → Option σ
  | _, _, [] => none
  | retries, s, r :: rest =>
    let s := pass s r.read
    let retries := retries + 1
    if maxRetries < retries ∧ givesUp then some s
    else if r.Discarded then
      readRounds givesUp pass (if maxRetries < retries then 0 else retries) s rest
    else some s

private theorem readRounds_from (givesUp : Bool) (pass : σ → α → σ) (retries : Nat) (s : σ)
    {discarded : List (Round α)} {last : Round α} (rest : List (Round α))
    (retried : ∀ r ∈ discarded, r.Discarded) (consistent : ¬ last.Discarded)
    (few : retries + discarded.length ≤ maxRetries) :
    readRounds givesUp pass retries s (discarded ++ last :: rest) =
      some (pass ((discarded.map Round.read).foldl pass s) last.read) := by
  induction discarded generalizing retries s with
  | nil =>
    rw [List.nil_append, readRounds]
    simp only [if_neg consistent, ite_self, List.map_nil, List.foldl_nil]
  | cons r discarded ih =>
    rw [List.forall_mem_cons] at retried
    rw [List.length_cons] at few
    have below : ¬ maxRetries < retries + 1 := by omega
    rw [List.cons_append, readRounds]
    simp only [below, false_and, if_false, if_pos retried.1]
    rw [ih _ _ retried.2 (by omega), List.map_cons, List.foldl_cons]

/-- After at most `maxRetries` discarded rounds and a consistent one, the result is that of all
their passes, one on top of the other. -/
theorem readRounds_eq (givesUp : Bool) (pass : σ → α → σ) (s : σ)
    {discarded : List (Round α)} {last : Round α} (rest : List (Round α))
    (retried : ∀ r ∈ discarded, r.Discarded) (consistent : ¬ last.Discarded)
    (few : discarded.length ≤ maxRetries) :
    readRounds givesUp pass 0 s (discarded ++ last :: rest) =
      some (pass ((discarded.map Round.read).foldl pass s) last.read) :=
  readRounds_from givesUp pass 0 s rest retried consistent (by omega)

end WrSwitch.Snmp
