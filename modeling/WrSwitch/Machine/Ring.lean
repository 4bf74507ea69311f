import Mathlib.Data.Nat.ModEq

/-!
# Slots of a ring

`n` slots of a ring, counted from `tail` on, and sums over them. The ring is described by the
number of slots in use: the indices alone do not tell an empty ring from a full one.
-/
namespace WrSwitch.Machine

variable {size : Nat}

/-- The sum of `f` over `n` slots from `tail` on. -/
def ringSum (size : Nat) (f : Nat → Nat) : Nat → Nat → Nat
  | _, 0 => 0
  | tail, n + 1 => f tail + ringSum size f ((tail + 1) % size) n

private theorem ringSum_concat (f : Nat → Nat) {tail : Nat} (inside : tail < size) (n : Nat) :
    ringSum size f tail (n + 1) = ringSum size f tail n + f ((tail + n) % size) := by
  induction n generalizing tail with
  | zero => simp [ringSum, Nat.mod_eq_of_lt inside]
  | succ n ih =>
    have next : (tail + 1) % size < size := Nat.mod_lt _ (Nat.zero_lt_of_lt inside)
    have last : ((tail + 1) % size + n) % size = (tail + (n + 1)) % size := by
      rw [Nat.mod_add_mod, Nat.add_assoc, Nat.add_comm 1 n]
    rw [ringSum, ih next, last, ringSum, Nat.add_assoc]

/-- The sum depends on the entries in the ring only. -/
theorem ringSum_congr {f g : Nat → Nat} {tail n : Nat} (inside : tail < size)
    (agree : ∀ i < n, f ((tail + i) % size) = g ((tail + i) % size)) :
    ringSum size f tail n = ringSum size g tail n := by
  induction n with
  | zero => rfl
  | succ n ih =>
    rw [ringSum_concat f inside, ringSum_concat g inside, agree n (Nat.lt_succ_self n),
      ih fun i before => agree i (Nat.lt_succ_of_lt before)]

/-- Slots at different places are different. -/
theorem slot_ne {tail i n : Nat} (before : i < n) (fits : n < size) :
    (tail + i) % size ≠ (tail + n) % size := by
  intro same
  have offsets : i % size = n % size := Nat.ModEq.add_left_cancel' tail same
  rw [Nat.mod_eq_of_lt (lt_trans before fits), Nat.mod_eq_of_lt fits] at offsets
  omega

/-- A slot that is stored behind the others adds its value to the sum. -/
theorem ringSum_push {f g : Nat → Nat} {tail n : Nat} (inside : tail < size) (fits : n < size)
    (kept : ∀ i, i ≠ (tail + n) % size → g i = f i) :
    ringSum size g tail (n + 1) = ringSum size f tail n + g ((tail + n) % size) := by
  rw [ringSum_concat g inside]
  congr 1
  exact ringSum_congr inside fun i before => kept _ (slot_ne before fits)

/-- The slots behind the first one. -/
theorem ringSum_pop {f g : Nat → Nat} {tail n : Nat} (inside : tail < size) (fits : n < size)
    (kept : ∀ i, i ≠ tail → g i = f i) :
    ringSum size f tail (n + 1) = f tail + ringSum size g ((tail + 1) % size) n := by
  have next : (tail + 1) % size < size := Nat.mod_lt _ (Nat.zero_lt_of_lt inside)
  rw [ringSum]
  congr 1
  apply ringSum_congr next
  intro i before
  have apart : (tail + (i + 1)) % size ≠ (tail + 0) % size :=
    (slot_ne (Nat.succ_pos i) (by omega)).symm
  rw [Nat.add_zero tail, Nat.mod_eq_of_lt inside, Nat.add_comm i, ← Nat.add_assoc,
    ← Nat.mod_add_mod] at apart
  exact (kept _ apart).symm

/-- A change of the first slot. -/
theorem ringSum_first {f g : Nat → Nat} {tail n : Nat} (inside : tail < size) (fits : n < size)
    (kept : ∀ i, i ≠ tail → g i = f i) :
    ringSum size g tail (n + 1) + f tail = ringSum size f tail (n + 1) + g tail := by
  rw [ringSum_pop inside fits fun i _ => rfl, ringSum_pop inside fits kept]
  omega

/-! ### Queues in a ring

The owner of each slot is marked in the slot itself, so neither end needs the other's index.
-/

section Queued

variable {α : Type*} {tail : Nat} {q : List α} {holds holds' : Nat → α → Prop}
  {free free' : Nat → Prop}

/-- The queue lies in the slots from `tail` on, and the other slots are free. -/
structure Queued (size tail : Nat) (q : List α) (holds : Nat → α → Prop) (free : Nat → Prop) :
    Prop where
  inside : tail < size
  fits : q.length ≤ size
  stored : ∀ i x, q[i]? = some x → holds ((tail + i) % size) x
  free : ∀ i, q.length ≤ i → i < size → free ((tail + i) % size)

/-- An empty ring. -/
theorem Queued.empty (inside : tail < size) (all : ∀ j < size, free j) :
    Queued size tail ([] : List α) holds free where
  inside := inside
  fits := Nat.zero_le size
  stored := by simp
  free := fun _ _ _ => all _ (Nat.mod_lt _ (Nat.zero_lt_of_lt inside))

/-- What is known of the slots may change as long as the queue does not. -/
theorem Queued.mono (queued : Queued size tail q holds free)
    (kept : ∀ i x, q[i]? = some x → holds ((tail + i) % size) x → holds' ((tail + i) % size) x)
    (still : ∀ j < size, free j → free' j) : Queued size tail q holds' free' where
  inside := queued.inside
  fits := queued.fits
  stored := fun i x at_i => kept i x at_i (queued.stored i x at_i)
  free := fun i behind below =>
    still _ (Nat.mod_lt _ (Nat.zero_lt_of_lt queued.inside)) (queued.free i behind below)

/-- The slot at the tail holds the first element. -/
theorem Queued.first {x : α} (queued : Queued size tail (x :: q) holds free) : holds tail x := by
  have stored := queued.stored 0 x (by simp)
  rwa [Nat.add_zero, Nat.mod_eq_of_lt queued.inside] at stored

/-- Without elements the slot at the tail is free. -/
theorem Queued.idle (queued : Queued size tail ([] : List α) holds free) : free tail := by
  have slot := queued.free 0 (by simp) (Nat.zero_lt_of_lt queued.inside)
  rwa [Nat.add_zero, Nat.mod_eq_of_lt queued.inside] at slot

/-- A full ring has its next slot in use. -/
theorem Queued.room (queued : Queued size tail q holds free)
    (unused : ∀ x, ¬holds ((tail + q.length) % size) x) : q.length < size := by
  refine lt_of_le_of_ne queued.fits fun full => ?_
  cases q with
  | nil => exact absurd queued.inside (by simp [← full])
  | cons x q =>
    have first := queued.first
    rw [full, Nat.add_mod_right, Nat.mod_eq_of_lt queued.inside] at unused
    exact unused x first

/-- An entry is put behind the queue. -/
theorem Queued.push {x : α} (queued : Queued size tail q holds free) (room : q.length < size)
    (new : holds' ((tail + q.length) % size) x)
    (kept : ∀ j y, j ≠ (tail + q.length) % size → holds j y → holds' j y)
    (still : ∀ j, j ≠ (tail + q.length) % size → free j → free' j) :
    Queued size tail (q ++ [x]) holds' free' where
  inside := queued.inside
  fits := by
    rw [List.length_append]
    exact room
  stored := by
    intro i y at_i
    -- the slots of the old elements differ from the one behind them
    rcases Nat.lt_or_ge i q.length with old | last
    · rw [List.getElem?_append_left old] at at_i
      exact kept _ y (slot_ne old room) (queued.stored i y at_i)
    · rw [List.getElem?_append_right last] at at_i
      have same : i = q.length := by
        have := (List.getElem?_eq_some_iff.mp at_i).1
        simp only [List.length_singleton] at this
        omega
      subst same
      simp only [Nat.sub_self, List.getElem?_cons_zero, Option.some.injEq] at at_i
      exact at_i ▸ new
  free := by
    intro i behind below
    rw [List.length_append, List.length_singleton] at behind
    exact still _ (slot_ne (by omega) below).symm (queued.free i (by omega) below)

/-- The first entry leaves the queue. -/
theorem Queued.pop {x : α} (queued : Queued size tail (x :: q) holds free) (freed : free' tail)
    (kept : ∀ j y, j ≠ tail → holds j y → holds' j y) (still : ∀ j, j ≠ tail → free j → free' j) :
    Queued size ((tail + 1) % size) q holds' free' := by
  have fits : q.length + 1 ≤ size := by simpa using queued.fits
  -- places behind the tail, counted from either end
  have shift (i : Nat) : ((tail + 1) % size + i) % size = (tail + (i + 1)) % size := by
    rw [Nat.mod_add_mod, Nat.add_assoc, Nat.add_comm 1 i]
  have apart (i : Nat) (below : i + 1 < size) : (tail + (i + 1)) % size ≠ tail := by
    have other : (tail + 0) % size ≠ (tail + (i + 1)) % size := slot_ne (Nat.succ_pos i) below
    rw [Nat.add_zero, Nat.mod_eq_of_lt queued.inside] at other
    exact other.symm
  refine ⟨Nat.mod_lt _ (Nat.zero_lt_of_lt queued.inside), by omega, ?_, ?_⟩
  · intro i y at_i
    have inside := (List.getElem?_eq_some_iff.mp at_i).1
    rw [shift]
    exact kept _ y (apart i (by omega)) (queued.stored (i + 1) y (by simpa using at_i))
  · intro i behind below
    rw [shift]
    rcases Nat.lt_or_ge (i + 1) size with in_ring | last
    · exact still _ (apart i in_ring) (queued.free (i + 1) (by simpa using behind) in_ring)
    · -- the slot that was given back is the last one now
      have whole : i + 1 = size := by omega
      rw [whole, Nat.add_mod_right, Nat.mod_eq_of_lt queued.inside]
      exact freed

end Queued

end WrSwitch.Machine
