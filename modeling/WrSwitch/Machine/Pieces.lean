import Mathlib.Algebra.Order.Ring.Nat
import Mathlib.Data.List.Basic
import Mathlib.Tactic.Ring

/-!
# Pieces of a file

A file that is written in pieces, each at a place of its own. Pieces that have no byte in common
are all found in the file at the end. Places are often rounded up to the next block.
-/
namespace WrSwitch.Machine

/-! ### Blocks -/

/-- The next multiple of `b`. -/
def roundUp (b x : Nat) : Nat := (x + (b - 1)) / b * b

section Blocks

variable {b : Nat} (positive : 0 < b)
include positive

/-- Rounding up does not take away. -/
theorem le_roundUp (x : Nat) : x ≤ roundUp b x := by
  have split := Nat.div_add_mod (x + (b - 1)) b
  have small := Nat.mod_lt (x + (b - 1)) positive
  rw [roundUp, Nat.mul_comm]
  omega

/-- An aligned start does not matter. -/
theorem roundUp_add {pos : Nat} (aligned : b ∣ pos) (x : Nat) :
    roundUp b (pos + x) = pos + roundUp b x := by
  obtain ⟨k, rfl⟩ := aligned
  rw [roundUp, Nat.add_assoc, Nat.mul_add_div positive, roundUp, Nat.add_mul, Nat.mul_comm k]

/-- A multiple is not rounded. -/
theorem roundUp_of_dvd {pos : Nat} (aligned : b ∣ pos) : roundUp b pos = pos := by
  have zero : roundUp b 0 = 0 := by
    rw [roundUp, Nat.zero_add, Nat.div_eq_of_lt (by omega), Nat.zero_mul]
  have sum := roundUp_add positive aligned 0
  rwa [zero, Nat.add_zero] at sum

/-- No multiple lies between a number and the next multiple. -/
theorem lt_of_lt_roundUp {m x : Nat} (multiple : b ∣ m) (below : m < roundUp b x) : m < x := by
  obtain ⟨k, rfl⟩ := multiple
  rw [roundUp, Nat.mul_comm b] at below
  have fewer : k < (x + (b - 1)) / b := Nat.lt_of_mul_lt_mul_right below
  have product := (Nat.le_div_iff_mul_le positive).mp fewer
  rw [Nat.succ_mul, Nat.mul_comm] at product
  omega

omit positive in
/-- What is rounded up is a multiple. -/
theorem dvd_roundUp (b x : Nat) : b ∣ roundUp b x := Nat.dvd_mul_left _ _

/-- Rounding up gives the least multiple. -/
theorem roundUp_le_of_dvd {m x : Nat} (multiple : b ∣ m) (above : x ≤ m) : roundUp b x ≤ m := by
  by_contra beyond
  have := lt_of_lt_roundUp positive multiple (Nat.lt_of_not_le beyond)
  omega

theorem roundUp_mono {x y : Nat} (le : x ≤ y) : roundUp b x ≤ roundUp b y :=
  roundUp_le_of_dvd positive (dvd_roundUp b y) (le.trans (le_roundUp positive y))

end Blocks

/-! ### What is in a file -/

section Holds

variable {α : Type*}

/-- The bytes are in the file at the place. -/
def HoldsAt (file : List α) (pos : Nat) (bytes : List α) : Prop :=
  pos + bytes.length ≤ file.length ∧ (file.drop pos).take bytes.length = bytes

theorem HoldsAt.left {file : List α} {pos : Nat} {front back : List α}
    (holds : HoldsAt file pos (front ++ back)) : HoldsAt file pos front := by
  obtain ⟨inside, taken⟩ := holds
  rw [List.length_append] at inside taken
  refine ⟨by omega, ?_⟩
  have first := congrArg (List.take front.length) taken
  rwa [List.take_take, Nat.min_eq_left (Nat.le_add_right _ _), List.take_left] at first

theorem HoldsAt.right {file : List α} {pos : Nat} {front back : List α}
    (holds : HoldsAt file pos (front ++ back)) : HoldsAt file (pos + front.length) back := by
  obtain ⟨inside, taken⟩ := holds
  rw [List.length_append] at inside taken
  refine ⟨by omega, ?_⟩
  have rest := congrArg (List.drop front.length) taken
  rwa [List.drop_take, List.drop_drop, Nat.add_sub_cancel_left, List.drop_left] at rest

private theorem HoldsAt.of_getElem? {file : List α} {pos : Nat} {bytes : List α}
    (inside : pos + bytes.length ≤ file.length)
    (same : ∀ i < bytes.length, file[pos + i]? = bytes[i]?) : HoldsAt file pos bytes := by
  refine ⟨inside, List.ext_getElem? fun i => ?_⟩
  rw [List.getElem?_take, List.getElem?_drop]
  split_ifs with early
  · exact same i early
  · exact (List.getElem?_eq_none (Nat.le_of_not_lt early)).symm

private theorem HoldsAt.getElem? {file : List α} {pos : Nat} {bytes : List α}
    (holds : HoldsAt file pos bytes) {i : Nat} (early : i < bytes.length) :
    file[pos + i]? = bytes[i]? := by
  have taken := congrArg (fun list : List α => list[i]?) holds.2
  simp only [List.getElem?_take, List.getElem?_drop, if_pos early] at taken
  exact taken

end Holds

/-! ### Writing at a place -/

variable {α : Type*} [Zero α]

/-- The file up to a place. What lies between its end and the place is filled with zeros. -/
def filledTo (out : List α) (pos : Nat) : List α :=
  out.take pos ++ List.replicate (pos - out.length) 0

private theorem length_filledTo (out : List α) (pos : Nat) : (filledTo out pos).length = pos := by
  simp only [filledTo, List.length_append, List.length_take, List.length_replicate]
  omega

private theorem filledTo_append (front back : List α) :
    filledTo (front ++ back) front.length = front := by
  rw [filledTo, List.take_left, List.length_append, Nat.sub_eq_zero_of_le (Nat.le_add_right _ _),
    List.replicate_zero, List.append_nil]

/-- The file after a write. -/
def writeAt (out : List α) (pos : Nat) (bytes : List α) : List α :=
  if bytes = [] then out else filledTo out pos ++ bytes ++ out.drop (pos + bytes.length)

theorem writeAt_nil (out : List α) (pos : Nat) : writeAt out pos [] = out := if_pos rfl

/-- Two writes in a row. -/
theorem writeAt_append (out : List α) (pos : Nat) (front back : List α) :
    writeAt (writeAt out pos front) (pos + front.length) back =
      writeAt out pos (front ++ back) := by
  by_cases noFront : front = []
  · rw [noFront, writeAt_nil, List.length_nil, Nat.add_zero, List.nil_append]
  by_cases noBack : back = []
  · rw [noBack, writeAt_nil, List.append_nil]
  have both : front ++ back ≠ [] := fun none => noFront (List.append_eq_nil_iff.mp none).1
  have written : pos + front.length = (filledTo out pos ++ front).length := by
    rw [List.length_append, length_filledTo]
  rw [writeAt, if_neg noBack, writeAt, if_neg noFront, writeAt, if_neg both, written,
    filledTo_append, List.drop_append, List.drop_eq_nil_of_le (Nat.le_add_right _ _),
    Nat.add_sub_cancel_left, List.drop_drop, ← written, List.length_append, List.nil_append,
    Nat.add_assoc, List.append_assoc (filledTo out pos)]

private theorem writeAt_holds (out : List α) (pos : Nat) {bytes : List α}
    (some_bytes : bytes ≠ []) :
    HoldsAt (writeAt out pos bytes) pos bytes := by
  have start := length_filledTo out pos
  rw [writeAt, if_neg some_bytes]
  refine ⟨by simp only [List.length_append]; omega, ?_⟩
  rw [List.append_assoc, List.drop_append, start, Nat.sub_self, List.drop_zero,
    List.drop_eq_nil_of_le (Nat.le_of_eq start), List.nil_append, List.take_left]

private theorem length_le_writeAt (out : List α) (pos : Nat) (bytes : List α) :
    out.length ≤ (writeAt out pos bytes).length := by
  unfold writeAt
  split_ifs
  · exact Nat.le_refl _
  · simp only [List.length_append, List.length_drop, length_filledTo]
    omega

/-- What is not written to is as before. -/
theorem writeAt_getElem? (out : List α) (pos : Nat) (bytes : List α) {i : Nat}
    (inside : i < out.length) (outside : i < pos ∨ pos + bytes.length ≤ i) :
    (writeAt out pos bytes)[i]? = out[i]? := by
  have start := length_filledTo out pos
  unfold writeAt
  split_ifs
  · rfl
  rcases outside with before | behind
  · rw [List.append_assoc, List.getElem?_append_left (by omega), filledTo,
      List.getElem?_append_left (by rw [List.length_take]; omega), List.getElem?_take,
      if_pos before]
  · have written : (filledTo out pos ++ bytes).length = pos + bytes.length := by
      rw [List.length_append, start]
    rw [List.getElem?_append_right (by omega), written, List.getElem?_drop,
      Nat.add_sub_cancel' behind]

/-! ### Pieces -/

/-- A place and the bytes that are written there. -/
abbrev Piece (α : Type*) := Nat × List α

def Piece.Covers (p : Piece α) (i : Nat) : Prop := p.1 ≤ i ∧ i < p.1 + p.2.length

omit [Zero α] in
theorem Piece.Covers.ne_nil {p : Piece α} {i : Nat} (covers : p.Covers i) : p.2 ≠ [] := by
  intro empty
  have length := congrArg List.length empty
  unfold Piece.Covers at covers
  rw [List.length_nil] at length
  omega

/-- No byte is in both. -/
def Piece.Disjoint (p q : Piece α) : Prop := ∀ i, ¬(p.Covers i ∧ q.Covers i)

/-- A file that is written in pieces. -/
def writePieces (out : List α) (pieces : List (Piece α)) : List α :=
  pieces.foldl (fun out p => writeAt out p.1 p.2) out

/-- Writing a piece leaves the pieces that are disjoint from it. -/
theorem HoldsAt.writeAt {out : List α} {p q : Piece α} (holds : HoldsAt out p.1 p.2)
    (disjoint : p.Disjoint q) : HoldsAt (writeAt out q.1 q.2) p.1 p.2 := by
  refine .of_getElem? (holds.1.trans (length_le_writeAt _ _ _)) fun i early => ?_
  have outside := disjoint (p.1 + i)
  simp only [Piece.Covers, not_and] at outside
  rw [writeAt_getElem? _ _ _ (by have := holds.1; omega) (by omega), holds.getElem? early]

/-- Pieces that have no byte in common are all in the file. -/
theorem writePieces_holds (out : List α) (pieces : List (Piece α))
    (disjoint : pieces.Pairwise Piece.Disjoint) :
    ∀ p ∈ pieces, p.2 ≠ [] → HoldsAt (writePieces out pieces) p.1 p.2 := by
  -- what was written stays: the later pieces lie elsewhere
  have kept : ∀ (pieces : List (Piece α)) (out : List α) (p : Piece α), HoldsAt out p.1 p.2 →
      (∀ q ∈ pieces, p.Disjoint q) → HoldsAt (writePieces out pieces) p.1 p.2 := by
    intro pieces
    induction pieces with
    | nil => exact fun _ _ holds _ => holds
    | cons q pieces ih =>
      intro out p holds apart
      exact ih _ p (holds.writeAt (apart q List.mem_cons_self))
        fun q' later => apart q' (List.mem_cons_of_mem _ later)
  induction pieces generalizing out with
  | nil => exact fun p member => absurd member List.not_mem_nil
  | cons q pieces ih =>
    obtain ⟨first, others⟩ := List.pairwise_cons.mp disjoint
    intro p member some_bytes
    rcases List.mem_cons.mp member with rfl | later
    · exact kept pieces _ p (writeAt_holds out p.1 some_bytes) first
    · exact ih _ others p later some_bytes

end WrSwitch.Machine
