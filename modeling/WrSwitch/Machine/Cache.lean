import Mathlib.Logic.Basic

/-!
# Values kept for a while

A value that is read again only when it is older than a timeout, with the time of its last
reading. A time of 0 stands for a value that was never read.
-/
namespace WrSwitch.Machine

variable {α : Type*}

structure Cache (α : Type*) where
  /-- when the value was last read, 0 if it was not -/
  time : Nat
  value : α

/-- Whether a request at `now` reads the value again. -/
def Cache.Due (c : Cache α) (timeout now : Nat) : Prop :=
  c.time = 0 ∨ timeout ≤ now - c.time

instance (c : Cache α) (timeout now : Nat) : Decidable (c.Due timeout now) :=
  inferInstanceAs (Decidable (_ ∨ _))

def Cache.refresh (c : Cache α) (timeout now : Nat) (fresh : α) : Cache α :=
  if c.Due timeout now then ⟨now, fresh⟩ else c

/-- A cache that is due takes the new value. -/
theorem Cache.refresh_due {c : Cache α} {timeout now : Nat} (due : c.Due timeout now)
    (fresh : α) : c.refresh timeout now fresh = ⟨now, fresh⟩ := if_pos due

/-- A cache that is not due keeps its value. -/
theorem Cache.refresh_fresh {c : Cache α} {timeout now : Nat} (kept : ¬ c.Due timeout now)
    (fresh : α) : c.refresh timeout now fresh = c := if_neg kept

/-- The time of a cache is never in the future. -/
theorem Cache.time_refresh_le {c : Cache α} {timeout now : Nat} (past : c.time ≤ now)
    (fresh : α) : (c.refresh timeout now fresh).time ≤ now := by
  by_cases due : c.Due timeout now
  · exact Nat.le_of_eq (congrArg Cache.time (refresh_due due fresh))
  · rwa [refresh_fresh due]

/-! ### What a time says about the value -/

/-- The value read at time `t` was `v`: it is there as long as the time is. -/
def Cache.Saw (c : Cache α) (t : Nat) (v : α) : Prop :=
  t ≤ c.time ∧ (c.time = t → c.value = v)

theorem Cache.saw_self (c : Cache α) : c.Saw c.time c.value := ⟨Nat.le_refl _, fun _ => rfl⟩

/-- Two readings never share a time, so what was seen stays true. -/
theorem Cache.Saw.refresh {c : Cache α} {t timeout now : Nat} {v : α} (seen : c.Saw t v)
    (read : 0 < t) (positive : 0 < timeout) (past : c.time ≤ now) (fresh : α) :
    (c.refresh timeout now fresh).Saw t v := by
  by_cases due : c.Due timeout now
  · rw [refresh_due due]
    refine ⟨Nat.le_trans seen.1 past, fun (same : now = t) => ?_⟩
    have held : c.time = now := Nat.le_antisymm past (same ▸ seen.1)
    -- the clock has not moved since the value was read, so it cannot be due
    rcases due with never | old
    · omega
    · omega
  · rwa [refresh_fresh due]

end WrSwitch.Machine
