import Mathlib.Data.List.Basic

/-!
# First matches

A list of patterns in the order of their priority, and a list of entries. The match is the first
entry that fits the first of the patterns that any entry fits.
-/
namespace WrSwitch.Machine

variable {ρ ε : Type*}

/-- The match, with the pattern that it fits. -/
def firstMatch (fits : ρ → ε → Bool) (rows : List ρ) (entries : List ε) : Option (ρ × ε) :=
  rows.findSome? fun row => (entries.find? (fits row)).map fun e => (row, e)

/-- `e` is the first entry that fits `row`, and no entry fits a pattern before. -/
def IsFirstMatch (fits : ρ → ε → Bool) (rows : List ρ) (entries : List ε) (row : ρ) (e : ε) :
    Prop :=
  (∃ front back, rows = front ++ row :: back ∧ ∀ r ∈ front, ∀ e' ∈ entries, fits r e' = false) ∧
    fits row e = true ∧
    ∃ front back, entries = front ++ e :: back ∧ ∀ e' ∈ front, fits row e' = false

/-- A first match is a row and an entry of the lists. -/
theorem IsFirstMatch.mem {fits : ρ → ε → Bool} {rows : List ρ} {entries : List ε} {row : ρ} {e : ε}
    (found : IsFirstMatch fits rows entries row e) : row ∈ rows ∧ e ∈ entries := by
  obtain ⟨⟨front, back, rfl, -⟩, -, front', back', rfl, -⟩ := found
  exact ⟨List.mem_append_right front List.mem_cons_self,
    List.mem_append_right front' List.mem_cons_self⟩

/-- Nothing is found if no row fits an entry. -/
theorem firstMatch_eq_none_iff (fits : ρ → ε → Bool) (rows : List ρ) (entries : List ε) :
    firstMatch fits rows entries = none ↔ ∀ row ∈ rows, ∀ e ∈ entries, fits row e = false := by
  simp only [firstMatch, List.findSome?_eq_none_iff, Option.map_eq_none_iff, List.find?_eq_none,
    Bool.not_eq_true]

/-- What is found is the first match. -/
theorem firstMatch_eq_some_iff (fits : ρ → ε → Bool) (rows : List ρ) (entries : List ε) (row : ρ)
    (e : ε) :
    firstMatch fits rows entries = some (row, e) ↔ IsFirstMatch fits rows entries row e := by
  rw [firstMatch, List.findSome?_eq_some_iff]
  constructor
  · rintro ⟨front, row', back, split, paired, none_before⟩
    obtain ⟨e', found, same⟩ := Option.map_eq_some_iff.mp paired
    obtain ⟨rfl, rfl⟩ := Prod.mk.inj same
    obtain ⟨fit, front', back', split', none_before'⟩ := List.find?_eq_some_iff_append.mp found
    refine ⟨⟨front, back, split, fun r member => ?_⟩, fit, front', back', split', ?_⟩
    · simpa using none_before r member
    · simpa using none_before'
  · rintro ⟨⟨front, back, split, none_before⟩, fit, front', back', split', none_before'⟩
    have found : entries.find? (fits row) = some e :=
      List.find?_eq_some_iff_append.mpr ⟨fit, front', back', split', by simpa using none_before'⟩
    refine ⟨front, row, back, split, by rw [found]; rfl, fun r member => ?_⟩
    simpa using none_before r member

/-- In entries that are ordered by a number, the match has the least one of those that fit. -/
theorem IsFirstMatch.least {fits : ρ → ε → Bool} {rows : List ρ} {entries : List ε} {row : ρ}
    {e : ε} (found : IsFirstMatch fits rows entries row e) {index : ε → Int}
    (ordered : entries.Pairwise fun a b => index a < index b) {e' : ε} (member : e' ∈ entries)
    (fit : fits row e' = true) : index e ≤ index e' := by
  obtain ⟨-, -, front, back, rfl, none_before⟩ := found
  rcases List.mem_append.mp member with before | here
  · exact absurd fit (by simp [none_before e' before])
  · rcases List.mem_cons.mp here with rfl | later
    · exact Int.le_refl _
    · have tail := (List.pairwise_append.mp ordered).2.1
      exact Int.le_of_lt (List.rel_of_pairwise_cons tail later)

end WrSwitch.Machine
