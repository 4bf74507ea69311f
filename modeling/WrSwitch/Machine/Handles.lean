import Mathlib.Logic.Function.Basic

/-!
# Handles and what they refer to

Each party has one handle, and some handles refer to nothing. The account is settled when a
table of owners and the handles agree: no party owns anything that its handle does not refer
to, and no handle refers to what is not there.
-/
namespace WrSwitch.Machine

variable {κ ι : Type*} {valid : κ → Prop} {owner : κ → Option ι} {handle : ι → κ}

def Settled (valid : κ → Prop) (owner : κ → Option ι) (handle : ι → κ) : Prop :=
  ∀ i k, owner k = some i ↔ handle i = k ∧ valid k

/-- The handles determine the table. -/
theorem Settled.unique {owner' : κ → Option ι} (settled : Settled valid owner handle)
    (settled' : Settled valid owner' handle) : owner = owner' := by
  funext k
  apply Option.ext
  intro i
  exact (settled i k).trans (settled' i k).symm

/-- A handle that is not valid has no owner. -/
theorem Settled.free (settled : Settled valid owner handle) {k : κ} (invalid : ¬valid k) :
    owner k = none := by
  cases owned : owner k with
  | none => rfl
  | some i => exact absurd ((settled i k).mp owned).2 invalid

variable [DecidableEq κ] [DecidableEq ι]

/-- What a handle refers to is given up, and the handle cleared. -/
theorem Settled.release (settled : Settled valid owner handle) {null : κ}
    (invalid : ¬valid null) (i : ι) :
    Settled valid (Function.update owner (handle i) none) (Function.update handle i null) := by
  intro j k
  by_cases mine : k = handle i
  · subst mine
    rw [Function.update_self]
    -- the resource is free: only i could have held it, and its handle is gone
    refine ⟨nofun, fun ⟨refers, ok⟩ => ?_⟩
    by_cases same : j = i
    · subst same
      rw [Function.update_self] at refers
      exact absurd (refers ▸ ok) invalid
    · rw [Function.update_of_ne same] at refers
      have shared : some j = some i :=
        ((settled j _).mpr ⟨refers, ok⟩).symm.trans ((settled i _).mpr ⟨rfl, ok⟩)
      exact absurd (Option.some.inj shared) same
  · -- another resource keeps its owner, which is not i
    rw [Function.update_of_ne mine, settled j k]
    by_cases same : j = i
    · subst same
      rw [Function.update_self]
      exact ⟨fun owned => absurd owned.1.symm mine, fun cleared => absurd (cleared.1 ▸ cleared.2)
        invalid⟩
    · rw [Function.update_of_ne same]

/-- A handle for something new may replace one that refers to nothing, and no other. -/
theorem Settled.acquire_iff (settled : Settled valid owner handle) {k : κ} (ok : valid k)
    (free : owner k = none) (i : ι) :
    Settled valid (Function.update owner k (some i)) (Function.update handle i k) ↔
      ¬valid (handle i) := by
  constructor
  -- a handle that was valid would keep its old resource
  · intro after old
    have owned := (settled i (handle i)).mpr ⟨rfl, old⟩
    have other : handle i ≠ k := by
      intro same
      rw [same, free] at owned
      cases owned
    have kept := after i (handle i)
    rw [Function.update_of_ne other, Function.update_self] at kept
    exact other (kept.mp owned).1.symm
  · intro empty j k'
    -- the new resource and its new owner are settled, the others stay as they were
    by_cases new : k' = k
    · subst new
      rw [Function.update_self]
      by_cases same : j = i
      · subst same
        simp [ok]
      · rw [Function.update_of_ne same, ← settled j k', free]
        simpa using Ne.symm same
    · rw [Function.update_of_ne new, settled j k']
      by_cases same : j = i
      · subst same
        rw [Function.update_self]
        exact ⟨fun owned => absurd (owned.1 ▸ owned.2) empty, fun refers => absurd refers.1.symm new⟩
      · rw [Function.update_of_ne same]

end WrSwitch.Machine
