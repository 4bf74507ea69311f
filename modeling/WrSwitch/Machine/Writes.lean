import Mathlib.Data.List.Basic

/-!
# Partial writes

A pass over a table writes some cells and leaves the others. What several passes leave
depends, cell by cell, on the last one that wrote it.
-/
namespace WrSwitch.Machine

variable {κ ν : Type*}

/-- What a pass writes: nothing where it is `none`. -/
abbrev Writes (κ ν : Type*) := κ → Option ν

def Writes.onto (w : Writes κ ν) (t : κ → ν) : κ → ν := fun k => (w k).getD (t k)

/-- The table after a list of passes. -/
def writeAll (t : κ → ν) (ws : List (Writes κ ν)) : κ → ν := ws.foldl (fun t w => w.onto t) t

/-- What the passes together write. -/
def lastWrite : List (Writes κ ν) → Writes κ ν
  | [], _ => none
  | w :: ws, k => (lastWrite ws k).or (w k)

theorem Writes.onto_apply (w : Writes κ ν) (t : κ → ν) (k : κ) :
    w.onto t k = (w k).getD (t k) := rfl

@[simp]
theorem writeAll_nil (t : κ → ν) : writeAll t [] = t := rfl

@[simp]
theorem writeAll_cons (t : κ → ν) (w : Writes κ ν) (ws : List (Writes κ ν)) :
    writeAll t (w :: ws) = writeAll (w.onto t) ws := rfl

/-- Writes in two parts. -/
theorem writeAll_append (t : κ → ν) (us ws : List (Writes κ ν)) :
    writeAll t (us ++ ws) = writeAll (writeAll t us) ws := List.foldl_append

/-- Of all writes the last one to each place counts. -/
theorem writeAll_eq (t : κ → ν) (ws : List (Writes κ ν)) :
    writeAll t ws = (lastWrite ws).onto t := by
  induction ws generalizing t with
  | nil => rfl
  | cons w ws ih =>
    funext k
    rw [writeAll_cons, ih, Writes.onto_apply, Writes.onto_apply, Writes.onto_apply, lastWrite]
    cases lastWrite ws k <;> rfl

/-- Two writes to the same cells give one table exactly if they write the same and found the
same everywhere else. -/
theorem onto_eq_onto_iff {w w' : Writes κ ν} (domain : ∀ k, (w k).isSome = (w' k).isSome)
    (t t' : κ → ν) :
    w.onto t = w'.onto t' ↔ (∀ k, w k = w' k) ∧ ∀ k, w k = none → t k = t' k := by
  constructor
  · intro same
    have cell (k : κ) : (w k).getD (t k) = (w' k).getD (t' k) := congrFun same k
    refine ⟨fun k => ?_, fun k unwritten => ?_⟩
    -- both sides write the cell, or neither does
    · have here := cell k
      have both := domain k
      cases left : w k with
      | none =>
        cases right : w' k with
        | none => rfl
        | some v' => simp [left, right] at both
      | some v =>
        cases right : w' k with
        | none => simp [left, right] at both
        | some v' =>
          rw [left, right] at here
          exact congrArg some here
    · have here := cell k
      have unwritten' : w' k = none := by
        have both := domain k
        rw [unwritten] at both
        exact Option.not_isSome_iff_eq_none.mp (both ▸ Bool.false_ne_true)
      rwa [unwritten, unwritten'] at here
  · rintro ⟨written, kept⟩
    funext k
    rw [Writes.onto_apply, Writes.onto_apply, ← written k]
    cases here : w k with
    | none => exact kept k here
    | some v => rfl

/-- What is written together, one of the passes has written. -/
theorem exists_of_lastWrite {ws : List (Writes κ ν)} {k : κ} {v : ν}
    (written : lastWrite ws k = some v) : ∃ w ∈ ws, w k = some v := by
  induction ws with
  | nil => cases written
  | cons w ws ih =>
    rw [lastWrite, Option.or_eq_some_iff] at written
    rcases written with later | ⟨-, here⟩
    · obtain ⟨w', member, found⟩ := ih later
      exact ⟨w', List.mem_cons_of_mem w member, found⟩
    · exact ⟨w, List.mem_cons_self, here⟩

/-- A pass after others gives in one cell what it gives alone. -/
theorem onto_writeAll_apply_iff (w : Writes κ ν) (t : κ → ν) (earlier : List (Writes κ ν))
    (k : κ) :
    w.onto (writeAll t earlier) k = w.onto t k ↔
      (w k = none → ∀ v ∈ lastWrite earlier k, v = t k) := by
  rw [Writes.onto_apply, Writes.onto_apply, writeAll_eq, Writes.onto_apply]
  cases w k with
  | some v => simp
  | none => cases lastWrite earlier k <;> simp

/-- Earlier passes leave no trace: a cell that `later` does not write has the value from the
beginning, whatever `earlier` wrote there. -/
def NoTrace (t : κ → ν) (earlier : List (Writes κ ν)) (later : Writes κ ν) : Prop :=
  ∀ k, later k = none → ∀ v ∈ lastWrite earlier k, v = t k

/-- Earlier writes leave no trace if they change nothing but what is written later. -/
theorem noTrace_iff (t : κ → ν) (earlier : List (Writes κ ν)) (later : Writes κ ν) :
    NoTrace t earlier later ↔ ∀ k, later k = none → writeAll t earlier k = t k := by
  refine forall_congr' fun k => imp_congr_right fun _ => ?_
  rw [writeAll_eq, Writes.onto_apply]
  cases lastWrite earlier k <;> simp

/-- A pass after others gives what it gives alone exactly if it writes the same and the others
leave no trace. -/
theorem onto_writeAll_eq_iff {w w' : Writes κ ν} (domain : ∀ k, (w k).isSome = (w' k).isSome)
    (t : κ → ν) (earlier : List (Writes κ ν)) :
    w.onto (writeAll t earlier) = w'.onto t ↔ (∀ k, w k = w' k) ∧ NoTrace t earlier w := by
  rw [onto_eq_onto_iff domain, noTrace_iff]

/-- The same for a pass that does not depend on what came before. -/
theorem onto_writeAll_eq_self_iff (w : Writes κ ν) (t : κ → ν) (earlier : List (Writes κ ν)) :
    w.onto (writeAll t earlier) = w.onto t ↔ NoTrace t earlier w := by
  rw [onto_writeAll_eq_iff (fun _ => rfl)]
  exact and_iff_right fun _ => rfl

end WrSwitch.Machine
