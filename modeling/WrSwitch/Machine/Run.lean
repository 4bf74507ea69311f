import Mathlib.Logic.Function.Basic

/-!
# Runs of deterministic machines

A machine consumes a list of inputs, one step each. A side condition on the
inputs (`Along`) restricts the runs an invariant or a simulation has to cover;
it is stated on the state before the step, so it can be checked while running.
-/
namespace WrSwitch.Machine

variable {σ ε α : Type*}

/-- The state reached by consuming the inputs in order. -/
def run (step : σ → ε → σ) (s : σ) (es : List ε) : σ := es.foldl step s

@[simp] theorem run_nil (step : σ → ε → σ) (s : σ) : run step s [] = s := rfl

@[simp] theorem run_cons (step : σ → ε → σ) (s : σ) (e : ε) (es : List ε) :
    run step s (e :: es) = run step (step s e) es := rfl

/-- A run in two parts. -/
theorem run_append (step : σ → ε → σ) (s : σ) (es fs : List ε) :
    run step s (es ++ fs) = run step (run step s es) fs := List.foldl_append

/-- A run and one step more. -/
theorem run_concat (step : σ → ε → σ) (s : σ) (es : List ε) (e : ε) :
    run step s (es ++ [e]) = step (run step s es) e := run_append step s es [e]

/-- Every input is consumed in a state where the side condition holds. -/
def Along (ok : σ → ε → Prop) (step : σ → ε → σ) : σ → List ε → Prop
  | _, [] => True
  | s, e :: es => ok s e ∧ Along ok step (step s e) es

instance Along.decidable (ok : σ → ε → Prop) [∀ s e, Decidable (ok s e)] (step : σ → ε → σ) :
    ∀ s es, Decidable (Along ok step s es)
  | _, [] => isTrue trivial
  | s, e :: es =>
    haveI := Along.decidable ok step (step s e) es
    inferInstanceAs (Decidable (ok s e ∧ Along ok step (step s e) es))

/-- What holds along a run holds along both parts. -/
theorem Along.append {ok : σ → ε → Prop} {step : σ → ε → σ} {s : σ} {es fs : List ε} :
    Along ok step s (es ++ fs) ↔ Along ok step s es ∧ Along ok step (run step s es) fs := by
  induction es generalizing s with
  | nil => exact (and_iff_right trivial).symm
  | cons e es ih => exact (and_congr Iff.rfl ih).trans and_assoc.symm

/-- Two conditions along one run. -/
theorem Along.and {ok ok' : σ → ε → Prop} {step : σ → ε → σ} {s : σ} {es : List ε} :
    Along (fun s e => ok s e ∧ ok' s e) step s es ↔ Along ok step s es ∧ Along ok' step s es := by
  induction es generalizing s with
  | nil => simp [Along]
  | cons e es ih => simp only [Along, ih, and_assoc, and_left_comm]

/-- A condition on the events alone. -/
theorem Along.of_forall {ok : ε → Prop} (step : σ → ε → σ) (s : σ) {es : List ε}
    (all : ∀ e ∈ es, ok e) : Along (fun _ e => ok e) step s es := by
  induction es generalizing s with
  | nil => trivial
  | cons e es ih =>
    rw [List.forall_mem_cons] at all
    exact ⟨all.1, ih (step s e) all.2⟩

/-- A condition that always holds. -/
theorem Along.of_all {ok : σ → ε → Prop} {step : σ → ε → σ} (all : ∀ s e, ok s e) (s : σ)
    (es : List ε) : Along ok step s es := by
  induction es generalizing s with
  | nil => trivial
  | cons e es ih => exact ⟨all s e, ih (step s e)⟩

/-- What the condition entails of every event. -/
theorem Along.forall_mem {ok : σ → ε → Prop} {p : ε → Prop} {step : σ → ε → σ}
    (entails : ∀ s e, ok s e → p e) {s : σ} {es : List ε} (along : Along ok step s es) :
    ∀ e ∈ es, p e := by
  induction es generalizing s with
  | nil => simp
  | cons e es ih =>
    rw [List.forall_mem_cons]
    exact ⟨entails s e along.1, ih along.2⟩

/-- What every admitted step preserves holds at the end of every admitted run. -/
theorem run_invariant (inv : σ → Prop) (ok : σ → ε → Prop) (step : σ → ε → σ)
    (preserved : ∀ s e, inv s → ok s e → inv (step s e)) (s : σ) (es : List ε)
    (initial : inv s) (along : Along ok step s es) : inv (run step s es) := by
  induction es generalizing s with
  | nil => exact initial
  | cons e es ih => exact ih (step s e) (preserved s e initial along.1) along.2

/-- Along an admitted run, an invariant may strengthen the side condition. -/
theorem Along.strengthen {ok ok' : σ → ε → Prop} {step : σ → ε → σ} (inv : σ → Prop)
    (preserved : ∀ s e, inv s → ok s e → inv (step s e))
    (entails : ∀ s e, inv s → ok s e → ok' s e) {s : σ} {es : List ε} (initial : inv s)
    (along : Along ok step s es) : Along ok' step s es := by
  induction es generalizing s with
  | nil => trivial
  | cons e es ih =>
    exact ⟨entails s e initial along.1, ih (preserved s e initial along.1) along.2⟩

/-- Side conditions that agree in the states of an invariant admit the same runs. -/
theorem Along.congr_inv {ok ok' : σ → ε → Prop} {step : σ → ε → σ} (inv : σ → Prop)
    (preserved : ∀ s e, inv s → ok' s e → inv (step s e))
    (agree : ∀ s e, inv s → (ok s e ↔ ok' s e)) {s : σ} {es : List ε} (initial : inv s) :
    Along ok step s es ↔ Along ok' step s es :=
  ⟨Along.strengthen inv
      (fun s e holds admitted => preserved s e holds ((agree s e holds).mp admitted))
      (fun s e holds => (agree s e holds).mp) initial,
    Along.strengthen inv preserved (fun s e holds => (agree s e holds).mpr) initial⟩

/-- The same along runs with a side condition of their own. -/
theorem Along.congr_inv_of {given ok ok' : σ → ε → Prop} {step : σ → ε → σ} (inv : σ → Prop)
    (preserved : ∀ s e, inv s → given s e → ok' s e → inv (step s e))
    (agree : ∀ s e, inv s → given s e → (ok s e ↔ ok' s e)) {s : σ} {es : List ε}
    (initial : inv s) (admitted : Along given step s es) :
    Along ok step s es ↔ Along ok' step s es := by
  have both : Along (fun s e => given s e ∧ ok s e) step s es ↔
      Along (fun s e => given s e ∧ ok' s e) step s es :=
    Along.congr_inv inv (fun s e holds side => preserved s e holds side.1 side.2)
      (fun s e holds => and_congr_right (agree s e holds)) initial
  rw [Along.and, Along.and] at both
  simpa [admitted] using both

/-- The unconditional case: the invariant of every step holds at the end of every run. -/
theorem run_preserves (inv : σ → Prop) (step : σ → ε → σ)
    (preserved : ∀ s e, inv s → inv (step s e)) (s : σ) (es : List ε)
    (initial : inv s) : inv (run step s es) := by
  induction es generalizing s with
  | nil => exact initial
  | cons e es ih => exact ih (step s e) (preserved s e initial)

/-- Where a measure falls with every step that is counted, and never rises, it bounds their
number. -/
theorem Along.countP_le {ok : σ → ε → Prop} {step : σ → ε → σ} (inv : σ → Prop)
    (measure : σ → Nat) (counted : ε → Bool) (preserved : ∀ s e, inv s → ok s e → inv (step s e))
    (falls : ∀ s e, inv s → ok s e →
      measure (step s e) + (if counted e then 1 else 0) ≤ measure s) {s : σ} {es : List ε}
    (initial : inv s) (along : Along ok step s es) : es.countP counted ≤ measure s := by
  induction es generalizing s with
  | nil => exact Nat.zero_le _
  | cons e es ih =>
    have rest := ih (preserved s e initial along.1) along.2
    have fallen := falls s e initial along.1
    rw [List.countP_cons]
    omega

/-- Where every admitted step lowers a measure, it bounds the number of admitted steps. -/
theorem Along.length_le {ok : σ → ε → Prop} {step : σ → ε → σ} (inv : σ → Prop)
    (measure : σ → Nat) (preserved : ∀ s e, inv s → ok s e → inv (step s e))
    (falls : ∀ s e, inv s → ok s e → measure (step s e) < measure s) {s : σ} {es : List ε}
    (initial : inv s) (along : Along ok step s es) : es.length ≤ measure s := by
  have counted := Along.countP_le inv measure (fun _ => true) preserved falls initial along
  rwa [List.countP_true] at counted

/-- Every step of a run leads to a good state exactly if the run passes through good states. -/
theorem along_step_iff (good : σ → Prop) (step : σ → ε → σ) (s : σ) (es : List ε)
    (initial : good s) :
    Along (fun s e => good (step s e)) step s es ↔ ∀ k, good (run step s (es.take k)) := by
  induction es generalizing s with
  | nil => simp [Along, initial]
  | cons e es ih =>
    constructor
    · rintro ⟨next, rest⟩ k
      cases k with
      | zero => exact initial
      | succ k => exact (ih (step s e) next).mp rest k
    · intro always
      exact ⟨always 1, (ih (step s e) (always 1)).mpr fun k => always (k + 1)⟩

/-- Where a legal step from a state of the invariant leads to a good state exactly if it meets
the side condition, the legal runs through good states are exactly the admitted ones. -/
theorem run_good_iff {legal ok : σ → ε → Prop} {step : σ → ε → σ} (inv good : σ → Prop)
    (entails : ∀ s, inv s → good s) (preserved : ∀ s e, inv s → legal s e → ok s e → inv (step s e))
    (required : ∀ s e, inv s → legal s e → good (step s e) → ok s e) {s : σ} {es : List ε}
    (initial : inv s) (admitted : Along legal step s es) :
    (∀ k, good (run step s (es.take k))) ↔ Along ok step s es := by
  rw [← along_step_iff good step s es (entails s initial)]
  refine Along.congr_inv_of inv preserved (fun s e holds side => ⟨required s e holds side, ?_⟩)
    initial admitted
  exact fun side' => entails _ (preserved s e holds side side')

/-- Runs of a nondeterministic machine. -/
inductive Runs (step : α → ε → α → Prop) : α → List ε → α → Prop
  | nil (a) : Runs step a [] a
  | cons {a b c e es} : step a e b → Runs step b es c → Runs step a (e :: es) c

/-- The last step of a run. -/
theorem Runs.last {step : α → ε → α → Prop} {a c : α} {es : List ε} {e : ε}
    (runs : Runs step a (es ++ [e]) c) : ∃ b, Runs step a es b ∧ step b e c := by
  induction es generalizing a with
  | nil =>
    cases runs with
    | cons moved rest =>
      cases rest
      exact ⟨a, .nil a, moved⟩
  | cons f es ih =>
    cases runs with
    | cons moved rest =>
      obtain ⟨b, before, final⟩ := ih rest
      exact ⟨b, .cons moved before, final⟩

/-- Forward simulation: if every admitted step of the machine is matched by an
abstract step that restores the relation, so is every admitted run. -/
theorem run_simulates (rel : σ → α → Prop) (ok : σ → ε → Prop) (step : σ → ε → σ)
    (abstract : α → ε → α → Prop)
    (matched : ∀ s a e, rel s a → ok s e → ∃ b, abstract a e b ∧ rel (step s e) b)
    (s : σ) (a : α) (es : List ε) (initial : rel s a) (along : Along ok step s es) :
    ∃ b, Runs abstract a es b ∧ rel (run step s es) b := by
  induction es generalizing s a with
  | nil => exact ⟨a, .nil a, initial⟩
  | cons e es ih =>
    obtain ⟨b, moved, related⟩ := matched s a e initial along.1
    obtain ⟨c, rest, final⟩ := ih (step s e) b related along.2
    exact ⟨c, .cons moved rest, final⟩

end WrSwitch.Machine
