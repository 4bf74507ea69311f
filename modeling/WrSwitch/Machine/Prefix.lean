import Mathlib.Data.List.Range
import Mathlib.Order.Basic

/-!
# Predicates that hold on a prefix

A predicate on the indices below a bound that is inherited by the preceding index
holds exactly below its own count. This is what lets an array be filled at the index
given by the number of its occupied places.
-/
namespace WrSwitch.Machine

/-- Below `k`, the predicate passes from an index to the preceding one. -/
def IsPrefix (p : Nat → Prop) (k : Nat) : Prop := ∀ b, b + 1 < k → p (b + 1) → p b

/-- What holds at one place below the bound holds at every lower one. -/
theorem IsPrefix.down {p : Nat → Prop} {k : Nat} (closed : IsPrefix p k) {a b : Nat}
    (below : a ≤ b) (bound : b < k) (holds : p b) : p a := by
  induction b, below using Nat.le_induction with
  | base => exact holds
  | succ b _ ih => exact ih (Nat.lt_of_succ_lt bound) (closed b bound holds)

/-- The number of indices below `k` where the predicate holds. -/
def countBelow (p : Nat → Prop) [DecidablePred p] (k : Nat) : Nat :=
  (List.range k).countP fun b => decide (p b)

private theorem countBelow_succ (p : Nat → Prop) [DecidablePred p] (k : Nat) :
    countBelow p (k + 1) = countBelow p k + if p k then 1 else 0 := by
  simp only [countBelow, List.range_succ, List.countP_append, List.countP_singleton,
    decide_eq_true_eq]

theorem countBelow_le (p : Nat → Prop) [DecidablePred p] (k : Nat) : countBelow p k ≤ k := by
  exact List.countP_le_length.trans (List.length_range ▸ Nat.le_refl _)

/-- A prefix is exactly the indices below its count. -/
theorem IsPrefix.iff_lt_count {p : Nat → Prop} [DecidablePred p] {k : Nat}
    (closed : IsPrefix p k) {b : Nat} (bound : b < k) : p b ↔ b < countBelow p k := by
  induction k generalizing b with
  | zero => omega
  | succ k ih =>
    have smaller : IsPrefix p k := fun b hb => closed b (Nat.lt_succ_of_lt hb)
    have size := countBelow_le p k
    rw [countBelow_succ]
    by_cases last : p k
    · -- if the last place holds, all before it do, and the count is full
      have all : p b := closed.down (Nat.le_of_lt_succ bound) k.lt_succ_self last
      have full : k ≤ countBelow p k := by
        cases k with
        | zero => exact Nat.zero_le _
        | succ k =>
          exact (ih smaller k.lt_succ_self).mp
            (closed.down k.le_succ (Nat.lt_succ_self _) last)
      simp only [all, last, if_true, true_iff]
      omega
    · rw [if_neg last, Nat.add_zero]
      by_cases inside : b < k
      · exact ih smaller inside
      · have equal : b = k := by omega
        subst equal
        simp only [last, false_iff]
        omega

end WrSwitch.Machine
