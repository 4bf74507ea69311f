import Mathlib.Logic.Basic
import Mathlib.Tactic.SplitIfs

/-!
# The generic state machine

`fsm_generic_run` of libwr over a table of handlers. A handler may run a machine of its own,
so a run is either over or was stopped, for want of fuel, in the state it had reached.
-/
namespace WrSwitch.Hal

/-- `fsm_state_t`; `none` is the state -1 of a machine that was just initialised. -/
structure Fsm (S : Type) where
  state : Option S
  nextState : Option S
deriving DecidableEq, Repr

namespace Fsm

variable {S : Type}

/-- `fsm_init_state` -/
def initState : Fsm S := ⟨none, none⟩

def fireState (fsm : Fsm S) (newState : S) : Fsm S := { fsm with nextState := some newState }

def consumeState (fsm : Fsm S) : Fsm S := { fsm with state := fsm.nextState }

def hasPendingState [DecidableEq S] (fsm : Fsm S) : Bool := fsm.state != fsm.nextState

@[simp] theorem fireState_state (fsm : Fsm S) (newState : S) :
    (fsm.fireState newState).state = fsm.state := rfl

@[simp] theorem fireState_nextState (fsm : Fsm S) (newState : S) :
    (fsm.fireState newState).nextState = some newState := rfl

@[simp] theorem consumeState_state (fsm : Fsm S) : fsm.consumeState.state = fsm.nextState := rfl

@[simp] theorem consumeState_nextState (fsm : Fsm S) :
    fsm.consumeState.nextState = fsm.nextState := rfl

/-- A state is pending if it is not the current one. -/
theorem hasPendingState_iff [DecidableEq S] (fsm : Fsm S) :
    fsm.hasPendingState = true ↔ fsm.state ≠ fsm.nextState := by
  simp [hasPendingState]

theorem not_hasPendingState_iff [DecidableEq S] (fsm : Fsm S) :
    fsm.hasPendingState = false ↔ fsm.state = fsm.nextState := by
  simp [hasPendingState]

end Fsm

/-- The table of a machine that is a part of `σ`. Every event mask of the daemon has the timer
bit, so `eventMask || isNewState` always holds. -/
structure FsmTable (σ S E : Type) where
  fsm : σ → Fsm S
  setFsm : σ → Fsm S → σ
  buildEvents : σ → E × σ
  handler : S → E → Bool → σ → Except σ (Int × σ)
  fsm_setFsm : ∀ s f, fsm (setFsm s f) = f := by exact fun _ _ => rfl
  setFsm_fsm : ∀ s, setFsm s (fsm s) = s := by exact Eq.refl

variable {σ S E : Type}

/-- `stopped` of a run that was stopped, `returned` of one that is over. -/
def Outcome (stopped : σ → Prop) (returned : Int → σ → Prop) : Except σ (Int × σ) → Prop
  | .error s => stopped s
  | .ok (ret, s) => returned ret s

/-- An outcome may be weakened, for a run that stops and for one that returns. -/
theorem Outcome.imp {stopped stopped' : σ → Prop} {returned returned' : Int → σ → Prop}
    {r : Except σ (Int × σ)} (holds : Outcome stopped returned r)
    (error : ∀ s, stopped s → stopped' s) (ok : ∀ ret s, returned ret s → returned' ret s) :
    Outcome stopped' returned' r := by
  cases r with
  | error s => exact error s holds
  | ok result => exact ok result.1 result.2 holds

/-- Two outcomes of one run hold together. -/
theorem Outcome.and {stopped stopped' : σ → Prop} {returned returned' : Int → σ → Prop}
    {r : Except σ (Int × σ)} (first : Outcome stopped returned r)
    (second : Outcome stopped' returned' r) :
    Outcome (fun s => stopped s ∧ stopped' s) (fun ret s => returned ret s ∧ returned' ret s) r := by
  cases r <;> exact ⟨first, second⟩

/-- A handler that goes on with the result of a machine it ran. -/
theorem Outcome.bind {stopped : σ → Prop} {middle returned : Int → σ → Prop}
    {r : Except σ (Int × σ)} {next : Int × σ → Except σ (Int × σ)}
    (first : Outcome stopped middle r)
    (rest : ∀ ret s, middle ret s → Outcome stopped returned (next (ret, s))) :
    Outcome stopped returned (r >>= next) := by
  cases r with
  | error s => exact first
  | ok result => exact rest result.1 result.2 first

variable [DecidableEq S]

/-- The state entered with this turn, if one is pending. -/
def FsmTable.enter (t : FsmTable σ S E) (s : σ) : σ :=
  if (t.fsm s).hasPendingState then t.setFsm s (t.fsm s).consumeState else s

/-- One turn of the machine: up to the return of the handler. -/
def FsmTable.turn (t : FsmTable σ S E) (s : σ) : Except σ (Int × σ) :=
  let (eventMask, s) := t.buildEvents s
  let isNewState := (t.fsm s).hasPendingState
  let s := t.enter s
  match (t.fsm s).state with
  | none => .ok (0, s)
  | some state => t.handler state eventMask isNewState s

theorem Fsm.consumeState_settled {fsm : Fsm S} (settled : fsm.hasPendingState = false) :
    fsm.consumeState = fsm := by
  have same := (Fsm.not_hasPendingState_iff fsm).mp settled
  cases fsm
  cases same
  rfl

/-- Whether or not a state is pending, the machine is in its next state now. -/
theorem FsmTable.enter_eq (t : FsmTable σ S E) (s : σ) :
    t.enter s = t.setFsm s (t.fsm s).consumeState := by
  unfold FsmTable.enter
  split
  · rfl
  next settled =>
    rw [Fsm.consumeState_settled (by simpa using settled), t.setFsm_fsm]

/-- A turn of a machine whose next state is known. -/
theorem FsmTable.turn_eq (t : FsmTable σ S E) (s : σ) {state : S}
    (next : (t.fsm (t.buildEvents s).2).nextState = some state) :
    t.turn s = t.handler state (t.buildEvents s).1 (t.fsm (t.buildEvents s).2).hasPendingState
      (t.setFsm (t.buildEvents s).2 (t.fsm (t.buildEvents s).2).consumeState) := by
  have entered : (t.fsm (t.enter (t.buildEvents s).2)).state = some state := by
    rw [t.enter_eq, t.fsm_setFsm, Fsm.consumeState_state, next]
  rw [← t.enter_eq]
  unfold FsmTable.turn
  dsimp only
  rw [entered]

/-- `fsm_generic_run`: a state that is pending after the handler is consumed immediately. -/
def fsmGenericRun (t : FsmTable σ S E) : Nat → σ → Except σ (Int × σ)
  | 0, s => .error s
  | fuel + 1, s =>
    match t.turn s with
    | .error s => .error s
    | .ok (ret, s) => if (t.fsm s).hasPendingState then fsmGenericRun t fuel s else .ok (ret, s)

/-- The rule for runs: what every turn restores, with a state pending, holds of every run, and
the last turn leaves what the run returns. -/
theorem fsmGenericRun_rule (t : FsmTable σ S E) (inv : σ → Prop) {stopped : σ → Prop}
    {returned : Int → σ → Prop} (stops : ∀ s, inv s → stopped s)
    (turn : ∀ s, inv s → Outcome stopped
      (fun ret s => if (t.fsm s).hasPendingState then inv s else returned ret s) (t.turn s))
    (fuel : Nat) (s : σ) (initial : inv s) :
    Outcome stopped returned (fsmGenericRun t fuel s) := by
  induction fuel generalizing s with
  | zero => exact stops s initial
  | succ fuel ih =>
    have turned := turn s initial
    unfold fsmGenericRun
    cases result : t.turn s with
    | error s' =>
      rw [result] at turned
      exact turned
    | ok next =>
      obtain ⟨ret, s'⟩ := next
      rw [result] at turned
      simp only [Outcome] at turned
      -- the run goes on as long as a state is pending
      by_cases pending : (t.fsm s').hasPendingState = true
      · rw [if_pos pending] at turned
        simp only [if_pos pending]
        exact ih s' turned
      · rw [if_neg pending] at turned
        simp only [if_neg pending]
        exact turned

/-- What neither the events nor a change of the state nor a handler touches, no run touches. -/
theorem fsmGenericRun_frame (t : FsmTable σ S E) {frame : σ → σ → Prop}
    (refl : ∀ s, frame s s) (trans : ∀ {a b c}, frame a b → frame b c → frame a c)
    (events : ∀ s, frame s (t.buildEvents s).2) (set : ∀ s fsm, frame s (t.setFsm s fsm))
    (handler : ∀ state evts isNewState s,
      Outcome (frame s) (fun _ => frame s) (t.handler state evts isNewState s))
    (fuel : Nat) (s : σ) : Outcome (frame s) (fun _ => frame s) (fsmGenericRun t fuel s) := by
  refine fsmGenericRun_rule t (frame s) (fun _ => id) ?_ fuel s (refl s)
  intro a before
  -- the events and the entry of the state come before the handler
  have entered : frame s (t.enter (t.buildEvents a).2) := by
    refine trans (trans before (events a)) ?_
    unfold FsmTable.enter
    split
    · exact set _ _
    · exact refl _
  unfold FsmTable.turn
  dsimp only
  split
  · simp only [Outcome, ite_self]
    exact entered
  next state _ =>
    refine (handler state _ _ _).imp (fun b => trans entered) fun ret b handled => ?_
    rw [ite_self]
    exact trans entered handled

/-! ### Runs that end and runs that do not -/

/-- A machine in the state -1 has no handler. -/
theorem FsmTable.turn_none (t : FsmTable σ S E) (s : σ)
    (next : (t.fsm (t.buildEvents s).2).nextState = none) :
    t.turn s = .ok (0, t.setFsm (t.buildEvents s).2 (t.fsm (t.buildEvents s).2).consumeState) := by
  have entered : (t.fsm (t.enter (t.buildEvents s).2)).state = none := by
    rw [t.enter_eq, t.fsm_setFsm, Fsm.consumeState_state, next]
  rw [← t.enter_eq]
  unfold FsmTable.turn
  dsimp only
  rw [entered]

/-- What the handler of the next state gets to work on. -/
def FsmTable.entered (t : FsmTable σ S E) (s : σ) : σ :=
  t.setFsm (t.buildEvents s).2 (t.fsm s).consumeState

def FsmTable.handled (t : FsmTable σ S E) (s : σ) (state : S) : Except σ (Int × σ) :=
  t.handler state (t.buildEvents s).1 (t.fsm s).hasPendingState (t.entered s)

/-- A run returns if its rank falls with every turn that leaves a state pending. The events leave
the machine alone. -/
theorem fsmGenericRun_returns (t : FsmTable σ S E) (inv : σ → Prop) (rank : σ → Nat)
    {returned : Int → σ → Prop} (events : ∀ s, t.fsm (t.buildEvents s).2 = t.fsm s)
    (idle : ∀ s, inv s → (t.fsm s).nextState = none → returned 0 (t.entered s))
    (turn : ∀ s state, inv s → (t.fsm s).nextState = some state →
      ∃ ret s', t.handled s state = .ok (ret, s') ∧
        if (t.fsm s').hasPendingState then inv s' ∧ rank s' < rank s else returned ret s')
    {fuel : Nat} {s : σ} (initial : inv s) (enough : rank s < fuel) :
    ∃ ret s', fsmGenericRun t fuel s = .ok (ret, s') ∧ returned ret s' := by
  induction fuel generalizing s with
  | zero => exact absurd enough (Nat.not_lt_zero _)
  | succ fuel ih =>
    rw [fsmGenericRun]
    cases next : (t.fsm s).nextState with
    -- no state was fired: one turn, and nothing is pending after it
    | none =>
      have settled : (t.fsm (t.entered s)).hasPendingState = false := by
        rw [FsmTable.entered, t.fsm_setFsm, Fsm.not_hasPendingState_iff]
        rfl
      rw [t.turn_none s ((congrArg Fsm.nextState (events s)).trans next), events]
      dsimp only
      rw [← FsmTable.entered, if_neg (by simp [settled])]
      exact ⟨0, _, rfl, idle s initial next⟩
    | some state =>
      obtain ⟨ret, s', handled, after⟩ := turn s state initial next
      rw [t.turn_eq s ((congrArg Fsm.nextState (events s)).trans next), events,
        ← FsmTable.entered, ← FsmTable.handled, handled]
      dsimp only
      -- a turn that leaves something pending lowers the rank
      split_ifs at after with pending
      · rw [if_pos pending]
        exact ih after.1 (by omega)
      · rw [if_neg pending]
        exact ⟨ret, s', rfl, after⟩

/-- A run that never ends a turn without a state pending does not return. -/
theorem fsmGenericRun_never (t : FsmTable σ S E) (inv : σ → Prop)
    (events : ∀ s, t.fsm (t.buildEvents s).2 = t.fsm s)
    (turn : ∀ s, inv s → ∃ state, (t.fsm s).nextState = some state ∧
      Outcome (fun _ => True) (fun _ s' => (t.fsm s').hasPendingState = true ∧ inv s')
        (t.handled s state))
    (fuel : Nat) {s : σ} (initial : inv s) : ∃ s', fsmGenericRun t fuel s = .error s' := by
  induction fuel generalizing s with
  | zero => exact ⟨s, rfl⟩
  | succ fuel ih =>
    obtain ⟨state, next, after⟩ := turn s initial
    rw [fsmGenericRun, t.turn_eq s ((congrArg Fsm.nextState (events s)).trans next), events,
      ← FsmTable.entered, ← FsmTable.handled]
    cases handled : t.handled s state with
    | error s' => exact ⟨s', rfl⟩
    | ok result =>
      rw [handled] at after
      -- every turn leaves something pending again
      obtain ⟨pending, again⟩ : (t.fsm result.2).hasPendingState = true ∧ inv result.2 := after
      dsimp only
      rw [if_pos pending]
      exact ih again

end WrSwitch.Hal
