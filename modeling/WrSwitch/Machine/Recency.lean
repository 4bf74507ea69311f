import Mathlib.Algebra.Group.Nat.Defs
import Mathlib.Data.List.Basic
import Mathlib.Data.List.Induction

/-!
# Recency

When the members of a finite set were last seen in a list, the one seen least recently, and for
how long something was seen without a break.
-/
namespace WrSwitch.Machine

variable {α : Type*} [DecidableEq α]

/-- The number, from 1, of the last occurrence; 0 if there is none. -/
def lastSeen (x : α) (xs : List α) : Nat := xs.length - xs.reverse.idxOf x

@[simp]
theorem lastSeen_nil (x : α) : lastSeen x [] = 0 := rfl

/-- The last place of an element, after one element more. -/
theorem lastSeen_concat (x y : α) (xs : List α) :
    lastSeen x (xs ++ [y]) = if x = y then xs.length + 1 else lastSeen x xs := by
  unfold lastSeen
  rw [List.reverse_concat, List.length_append, List.length_singleton]
  by_cases same : x = y
  · rw [if_pos same, same, List.idxOf_cons_self, Nat.sub_zero]
  · rw [if_neg same, List.idxOf_cons_ne _ (Ne.symm same), Nat.succ_eq_add_one,
      Nat.add_sub_add_right]

section Streaks

variable {ε : Type*} (holds : ε → Bool)

/-- For how many of the last entries something holds without a break. -/
def streak (xs : List ε) : Nat := (xs.reverse.takeWhile holds).length

/-- A streak goes on or starts again. -/
theorem streak_concat (xs : List ε) (x : ε) :
    streak holds (xs ++ [x]) = if holds x then streak holds xs + 1 else 0 := by
  unfold streak
  rw [List.reverse_concat, List.takeWhile_cons]
  split <;> rfl

private theorem le_length_takeWhile_iff (n : Nat) (xs : List ε) :
    n ≤ (xs.takeWhile holds).length ↔ n ≤ xs.length ∧ ∀ x ∈ xs.take n, holds x := by
  induction xs generalizing n with
  | nil => simp
  | cons x xs ih =>
    cases n with
    | zero => simp
    | succ n =>
      rw [List.takeWhile_cons, List.take_succ_cons, List.forall_mem_cons]
      by_cases now : holds x
      · rw [if_pos now, List.length_cons, List.length_cons, Nat.add_le_add_iff_right,
          Nat.add_le_add_iff_right, ih]
        exact ⟨fun ⟨long, all⟩ => ⟨long, now, all⟩, fun ⟨long, _, all⟩ => ⟨long, all⟩⟩
      · rw [if_neg now]
        exact iff_of_false (Nat.not_succ_le_zero n) (fun all => now all.2.1)

/-- A streak of at least `n`: something holds for each of the last `n` entries. -/
theorem le_streak_iff (n : Nat) (xs : List ε) :
    n ≤ streak holds xs ↔ n ≤ xs.length ∧ ∀ x ∈ xs.reverse.take n, holds x := by
  rw [streak, le_length_takeWhile_iff, List.length_reverse]

end Streaks

end WrSwitch.Machine
