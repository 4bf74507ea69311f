import WrSwitch.Rtu.FilterDb
import Mathlib.Data.Set.Card

/-!
# What the filtering database is for

A finite map from a MAC address and a FID to a destination mask and a type. The only
trace the hash table leaves at this level is that a row of keys has a capacity.
-/
namespace WrSwitch.Rtu

/-- The pair a filtering entry is found by. -/
structure Key where
  mac : Mac
  fid : Byte
deriving DecidableEq

/-- What a filtering entry says: where to forward to, and whether it may age out. -/
structure Binding where
  mask : Word
  type : Word
deriving DecidableEq

abbrev AbstractMap := Key → Option Binding

/-- What the operations read besides the map: the FID of each registered VLAN, and which
keys share a row. -/
structure FdEnv where
  fidOf : BitVec 16 → Option Byte
  row : Key → Nat

/-- The keys of the map that lie in one row. -/
def AbstractMap.rowKeys (env : FdEnv) (A : AbstractMap) (r : Nat) : Set Key :=
  { k | env.row k = r ∧ (A k).isSome }

def AbstractMap.RowFull (env : FdEnv) (A : AbstractMap) (r : Nat) : Prop :=
  rtuBuckets ≤ (A.rowKeys env r).ncard

/-- A create under an existing binding. -/
def Binding.override (old : Binding) (portMask dynamic : Word) (atExistingEntry : Int) : Binding :=
  if atExistingEntry = overrideExistingDynamic ∧ old.type = rtuEntryTypeStatic ∧
      dynamic = rtuEntryTypeDynamic then old
  else ⟨if atExistingEntry = addToExisting then portMask ||| old.mask else portMask, dynamic⟩

open Classical in
/-- A create binds its key, unless the VLAN is not registered or the row of a new key is full. -/
noncomputable def AbstractMap.create (env : FdEnv) (A : AbstractMap) (mac : Mac)
    (vid : BitVec 16) (portMask dynamic : Word) (atExistingEntry : Int) : AbstractMap :=
  match env.fidOf vid with
  | none => A
  | some fid =>
    match A ⟨mac, fid⟩ with
    | some old =>
      Function.update A ⟨mac, fid⟩ (some (old.override portMask dynamic atExistingEntry))
    | none =>
      if A.RowFull env (env.row ⟨mac, fid⟩) then A
      else Function.update A ⟨mac, fid⟩ (some ⟨portMask, dynamic⟩)

/-- The map without the bindings that satisfy `p`. -/
def AbstractMap.delete (A : AbstractMap) (p : Key → Binding → Prop)
    [∀ k v, Decidable (p k v)] : AbstractMap :=
  fun k => (A k).filter fun v => ¬p k v

/-- One operation. Which dynamic bindings a flush deletes is up to the clock. -/
inductive MapStep (env : FdEnv) : AbstractMap → FdOp → AbstractMap → Prop
  | create (A mac vid portMask dynamic atExistingEntry now) :
    MapStep env A (.create mac vid portMask dynamic atExistingEntry now)
      (A.create env mac vid portMask dynamic atExistingEntry)
  | remove (A mac portMask type) :
    MapStep env A (.remove mac portMask type)
      (A.delete fun k v => k.mac = mac ∧ v.type = type ∧ v.mask = portMask)
  | clear (A destPort type) :
    MapStep env A (.clear destPort type)
      (A.delete fun _ v => v.type = type ∧ v.mask = portBit destPort)
  | flush (A B bitmap t₁ t₂)
    (dynamicOnly : ∀ k, B k = A k ∨ B k = none ∧ ∃ v, A k = some v ∧ v.type = rtuEntryTypeDynamic) :
    MapStep env A (.flush bitmap t₁ t₂) B

/-- What is still bound after a deletion. -/
theorem AbstractMap.delete_eq_some {A : AbstractMap} {p : Key → Binding → Prop}
    [∀ k v, Decidable (p k v)] {k : Key} {v : Binding} :
    A.delete p k = some v ↔ A k = some v ∧ ¬p k v := by
  unfold AbstractMap.delete
  rw [Option.filter_eq_some_iff, decide_eq_true_eq]

theorem static_ne_dynamic : rtuEntryTypeStatic ≠ rtuEntryTypeDynamic := by decide

/-- What happens without an operator: learning, aging, and a link going down. -/
def FdOp.Background : FdOp → Prop
  | .create _ _ _ dynamic atExistingEntry _ =>
    dynamic = rtuEntryTypeDynamic ∧ atExistingEntry = overrideExistingDynamic
  | .remove .. => False
  | .clear _ type => type = rtuEntryTypeDynamic
  | .flush .. => True

/-- Static bindings survive everything that happens without an operator. -/
theorem MapStep.static {env : FdEnv} {A B : AbstractMap} {op : FdOp} (step : MapStep env A op B)
    (background : op.Background) {k : Key} {mask : Word}
    (bound : A k = some ⟨mask, rtuEntryTypeStatic⟩) : B k = some ⟨mask, rtuEntryTypeStatic⟩ := by
  -- a background operation creates only dynamic entries, and deletes only those
  cases step with
  | create mac vid portMask dynamic atExistingEntry now =>
    obtain ⟨rfl, rfl⟩ := background
    unfold AbstractMap.create
    cases env.fidOf vid with
    | none => exact bound
    | some fid =>
      dsimp only
      by_cases same : k = ⟨mac, fid⟩
      · subst same
        rw [bound]
        exact Function.update_self ..
      · cases A ⟨mac, fid⟩ with
        | some old => exact (Function.update_of_ne same ..).trans bound
        | none =>
          dsimp only
          split
          next => exact bound
          next => exact (Function.update_of_ne same ..).trans bound
  | remove => exact background.elim
  | clear destPort type =>
    subst background
    exact AbstractMap.delete_eq_some.mpr ⟨bound, fun chosen => static_ne_dynamic chosen.1⟩
  | flush B bitmap t₁ t₂ dynamicOnly =>
    rcases dynamicOnly k with same | ⟨_, v, held, dynamic⟩
    · rw [same, bound]
    · rw [bound] at held
      cases held
      exact absurd dynamic static_ne_dynamic

/-- The bindings an operation is asked to delete. -/
def FdOp.Deletes : FdOp → Key → Binding → Prop
  | .remove mac portMask type, k, v => k.mac = mac ∧ v.type = type ∧ v.mask = portMask
  | .clear destPort type, _, v => v.type = type ∧ v.mask = portBit destPort
  | .create .., _, _ | .flush .., _, _ => False

/-- No binding that was to be deleted survives. -/
theorem MapStep.deleted {env : FdEnv} {A B : AbstractMap} {op : FdOp} (step : MapStep env A op B)
    {k : Key} {v : Binding} (deleted : op.Deletes k v) : B k ≠ some v := by
  cases step with
  | create => exact deleted.elim
  | flush => exact deleted.elim
  | remove | clear => exact fun held => (AbstractMap.delete_eq_some.mp held).2 deleted

end WrSwitch.Rtu
