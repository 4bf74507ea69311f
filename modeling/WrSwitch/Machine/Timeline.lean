import Mathlib.Data.List.Basic
import Mathlib.Tactic.SplitIfs

/-!
# Values over time

A list of entries, each with the time from which its value holds.
-/
namespace WrSwitch.Machine

variable {ε ν : Type*} {key : ε → Int} {val : ε → ν}

/-- The value of the last entry, or `start`. -/
def lastValue (val : ε → ν) (start : ν) (es : List ε) : ν := (es.getLast?.map val).getD start

@[simp]
theorem lastValue_nil (start : ν) : lastValue val start [] = start := rfl

/-- The value after one entry more in front. -/
theorem lastValue_cons (start : ν) (e : ε) (es : List ε) :
    lastValue val start (e :: es) = lastValue val (val e) es := by
  rw [lastValue, lastValue, List.getLast?_cons]
  cases es.getLast? <;> rfl

@[simp]
theorem lastValue_concat (start : ν) (es : List ε) (e : ε) :
    lastValue val start (es ++ [e]) = val e := by
  rw [lastValue, List.getLast?_concat]
  rfl

/-- Where there is an entry, the value before the first one does not matter. -/
theorem lastValue_start {es : List ε} (some_entry : es ≠ []) (start start' : ν) :
    lastValue val start es = lastValue val start' es := by
  obtain ⟨e, es, rfl⟩ := List.exists_cons_of_ne_nil some_entry
  rw [lastValue_cons, lastValue_cons]

/-- The value in force at `t`: that of the last entry at or before it. -/
def valueAt (key : ε → Int) (val : ε → ν) (start : ν) (es : List ε) (t : Int) : ν :=
  lastValue val start (es.filter fun e => key e ≤ t)

/-- The value at a time is that of the last entry in the past. -/
theorem valueAt_append {front back : List ε} {t : Int} (past : ∀ e ∈ front, key e ≤ t)
    (future : ∀ e ∈ back, t < key e) (start : ν) :
    valueAt key val start (front ++ back) t = lastValue val start front := by
  have kept : front.filter (fun e => key e ≤ t) = front :=
    List.filter_eq_self.mpr fun e member => decide_eq_true (past e member)
  have dropped : back.filter (fun e => key e ≤ t) = [] := by
    refine List.filter_eq_nil_iff.mpr fun e member => ?_
    simpa using future e member
  rw [valueAt, List.filter_append, kept, dropped, List.append_nil]

/-- Entries in the order of their times are those before `t` and those from `t` on. -/
theorem exists_split_at {es : List ε} (rising : es.Pairwise fun a b => key a < key b) (t : Int) :
    ∃ front back, es = front ++ back ∧ (∀ e ∈ front, key e < t) ∧ ∀ e ∈ back, t ≤ key e := by
  induction es with
  | nil => exact ⟨[], [], rfl, fun _ member => (List.not_mem_nil member).elim,
      fun _ member => (List.not_mem_nil member).elim⟩
  | cons e es ih =>
    obtain ⟨later, rising⟩ := List.pairwise_cons.mp rising
    by_cases before : key e < t
    · obtain ⟨front, back, rfl, past, future⟩ := ih rising
      exact ⟨e :: front, back, rfl, List.forall_mem_cons.mpr ⟨before, past⟩, future⟩
    · refine ⟨[], e :: es, rfl, fun _ member => (List.not_mem_nil member).elim, ?_⟩
      refine List.forall_mem_cons.mpr ⟨by omega, fun e' member => ?_⟩
      have := later e' member
      omega

/-- There is one such way to part them. -/
theorem split_unique {front back front' back' : List ε} {t : Int}
    (same : front ++ back = front' ++ back') (past : ∀ e ∈ front, key e < t)
    (future : ∀ e ∈ back, t ≤ key e) (past' : ∀ e ∈ front', key e < t)
    (future' : ∀ e ∈ back', t ≤ key e) : front = front' ∧ back = back' := by
  have early : ∀ {front back : List ε}, (∀ e ∈ front, key e < t) → (∀ e ∈ back, t ≤ key e) →
      (front ++ back).filter (fun e => key e < t) = front := by
    intro front back past future
    have kept : front.filter (fun e => key e < t) = front :=
      List.filter_eq_self.mpr fun e member => decide_eq_true (past e member)
    have dropped : back.filter (fun e => key e < t) = [] := by
      refine List.filter_eq_nil_iff.mpr fun e member => ?_
      simpa using future e member
    rw [List.filter_append, kept, dropped, List.append_nil]
  have fronts : front = front' := by
    rw [← early past future, same, early past' future']
  subst fronts
  exact ⟨rfl, List.append_cancel_left same⟩

end WrSwitch.Machine
