import Mathlib.Data.BitVec
import Mathlib.FieldTheory.Finite.GaloisField
import Mathlib.FieldTheory.IntermediateField.Adjoin.Basic

/-!
# The field with 256 elements

What the erasure code asks of `class GF256`: a field whose elements are the bytes, with
exclusive or as its sum and 2 as a generator of the units. Division by 0 gives 0.
-/
namespace WrSwitch.Fec

abbrev Byte := BitVec 8

structure Gf256 (F : Type) [Field F] where
  embed : Byte → F
  project : F → Byte
  project_embed : ∀ b, project (embed b) = b
  embed_project : ∀ x, embed (project x) = x
  embed_xor : ∀ a b, embed (a ^^^ b) = embed a + embed b
  embed_one : embed 1 = 1
  generator : orderOf (embed 2) = 255

namespace Gf256

variable {F : Type} [Field F] (gf : Gf256 F)

/-- `GF256::g` -/
def g : F := gf.embed 2

include gf

/-- The byte 0 stands for the zero of the field. -/
theorem embed_zero : gf.embed 0 = 0 := by
  have twice : gf.embed 0 = gf.embed 0 + gf.embed 0 := gf.embed_xor 0 0
  exact left_eq_add.mp twice

/-- The characteristic is 2. -/
theorem add_self (x : F) : x + x = 0 := by
  have one : (1 : F) + 1 = 0 := by
    have twice := gf.embed_xor 1 1
    rw [gf.embed_one, BitVec.xor_self] at twice
    exact twice.symm.trans gf.embed_zero
  calc x + x = x * (1 + 1) := by ring
    _ = 0 := by rw [one, mul_zero]

private theorem neg_eq (x : F) : -x = x := neg_eq_of_add_eq_zero_left (gf.add_self x)

/-- A difference is a sum. -/
theorem sub_eq (x y : F) : x - y = x + y := by rw [sub_eq_add_neg, gf.neg_eq]

/-- The generator is a unit. -/
theorem g_ne_zero : gf.g ≠ 0 := by
  intro zero
  have order := gf.generator
  rw [show gf.embed 2 = 0 from zero, orderOf_zero] at order
  exact absurd order (by decide)

/-- The powers below the order of the group are distinct. -/
theorem g_pow_inj {i j : Nat} (small : i < 255) (small' : j < 255) (same : gf.g ^ i = gf.g ^ j) :
    i = j := by
  have order : orderOf gf.g = 255 := gf.generator
  exact pow_injOn_Iio_orderOf (show i < orderOf gf.g by rwa [order])
    (show j < orderOf gf.g by rwa [order]) same

/-- Powers of the generator below its order are distinct. -/
theorem g_pow_add_ne_zero {i j : Nat} (small : i < 255) (small' : j < 255) (other : i ≠ j) :
    gf.g ^ i + gf.g ^ j ≠ 0 := by
  intro zero
  rw [← gf.sub_eq, sub_eq_zero] at zero
  exact other (gf.g_pow_inj small small' zero)

end Gf256

/-! ### The bytes as a Galois field -/

open Polynomial

/-- The byte as a polynomial in `x` over the field with two elements. -/
def bitSum {F : Type} [Semiring F] (x : F) (b : Byte) : F :=
  ∑ i : Fin 8, if b.getLsb i then x ^ i.val else 0

private theorem bitSum_xor {F : Type} [CommRing F] [CharP F 2] (x : F) (a b : Byte) :
    bitSum x (a ^^^ b) = bitSum x a + bitSum x b := by
  rw [bitSum, bitSum, bitSum, ← Finset.sum_add_distrib]
  refine Finset.sum_congr rfl fun i _ => ?_
  have bit : (a ^^^ b).getLsb i = (a.getLsb i ^^ b.getLsb i) := BitVec.getLsbD_xor
  rw [bit]
  cases a.getLsb i <;> cases b.getLsb i <;> simp [CharTwo.add_self_eq_zero]

private theorem bitSum_one {F : Type} [Semiring F] (x : F) : bitSum x 1 = 1 := by
  simp +decide [bitSum]

private theorem bitSum_two {F : Type} [Semiring F] (x : F) : bitSum x 2 = x := by
  simp +decide [bitSum, Fin.sum_univ_eight]

private theorem exists_generator256 : ∃ x : (GaloisField 2 8)ˣ, ∀ y, y ∈ Subgroup.zpowers x :=
  IsCyclic.exists_generator

noncomputable def generator256 : (GaloisField 2 8)ˣ := Classical.choose exists_generator256

private theorem mem_zpowers_generator256 (y : (GaloisField 2 8)ˣ) :
    y ∈ Subgroup.zpowers generator256 :=
  Classical.choose_spec exists_generator256 y

private theorem orderOf_generator256 : orderOf (generator256 : GaloisField 2 8) = 255 := by
  rw [orderOf_units, orderOf_eq_card_of_forall_mem_zpowers mem_zpowers_generator256,
    Nat.card_units, GaloisField.card 2 8 (by decide)]
  rfl

/-- The generator generates the field, so no polynomial of degree below 8 vanishes at it. -/
theorem natDegree_minpoly_generator256 :
    (minpoly (ZMod 2) (generator256 : GaloisField 2 8)).natDegree = 8 := by
  have integral : IsIntegral (ZMod 2) (generator256 : GaloisField 2 8) :=
    Algebra.IsIntegral.isIntegral _
  rw [← IntermediateField.adjoin.finrank integral]
  have whole : IntermediateField.adjoin (ZMod 2) {(generator256 : GaloisField 2 8)} = ⊤ := by
    refine eq_top_iff.mpr fun y _ => ?_
    by_cases zero : y = 0
    · rw [zero]
      exact zero_mem _
    · obtain ⟨k, power⟩ := Subgroup.mem_zpowers_iff.mp
        (mem_zpowers_generator256 (Units.mk0 y zero))
      have value : y = (generator256 : GaloisField 2 8) ^ k := by
        rw [← Units.val_zpow_eq_zpow_val]
        exact (congrArg Units.val power).symm
      rw [value]
      exact zpow_mem (IntermediateField.mem_adjoin_simple_self _ _) k
  rw [whole, IntermediateField.finrank_top', GaloisField.finrank 2 (by decide)]

private theorem bitSum_generator256_injective :
    Function.Injective (bitSum (generator256 : GaloisField 2 8)) := by
  intro a b same
  have zero : bitSum (generator256 : GaloisField 2 8) (a ^^^ b) = 0 := by
    rw [bitSum_xor, same, CharTwo.add_self_eq_zero]
  -- the difference of two values as a polynomial over the field of two elements
  let p : (ZMod 2)[X] := bitSum X (a ^^^ b)
  have root : aeval (generator256 : GaloisField 2 8) p = 0 := by
    rw [← zero]
    simp [p, bitSum, apply_ite]
  have coefficient (i : Fin 8) : p.coeff i = if (a ^^^ b).getLsb i then 1 else 0 := by
    simp only [p, bitSum, finsetSum_coeff, apply_ite (fun q : (ZMod 2)[X] => q.coeff i),
      coeff_X_pow, coeff_zero]
    rw [Finset.sum_eq_single i]
    · simp
    · intro j _ other
      simp [Fin.val_ne_of_ne (Ne.symm other)]
    · simp
  have small : p.natDegree < 8 := by
    refine lt_of_le_of_lt (natDegree_sum_le_of_forall_le (n := 7) _ _ fun i _ => ?_) (by decide)
    split
    · rw [natDegree_X_pow]
      omega
    · simp
  -- its degree is below that of the minimal polynomial, so a root makes it vanish
  have vanishes : p = 0 := by
    by_contra nonzero
    have bound := natDegree_le_natDegree (minpoly.degree_le_of_ne_zero _ _ nonzero root)
    rw [natDegree_minpoly_generator256] at bound
    omega
  have bits (i : Fin 8) : (a ^^^ b).getLsb i = false := by
    have here := coefficient i
    rw [vanishes, coeff_zero] at here
    by_contra set
    rw [if_pos (Bool.not_eq_false _ ▸ set)] at here
    exact zero_ne_one here
  refine BitVec.xor_eq_zero_iff.mp (BitVec.eq_of_getLsbD_eq fun i inside => ?_)
  rw [BitVec.getLsbD_zero]
  exact bits ⟨i, inside⟩

private theorem bitSum_generator256_bijective :
    Function.Bijective (bitSum (generator256 : GaloisField 2 8)) := by
  refine bitSum_generator256_injective.bijective_of_nat_card_le ?_
  rw [GaloisField.card 2 8 (by decide), Nat.card_congr BitVec.equivFin.toEquiv, Nat.card_fin]

/-- A field as `gf256.h` describes it. -/
noncomputable def galois256 : Gf256 (GaloisField 2 8) where
  embed := bitSum generator256
  project := (Equiv.ofBijective _ bitSum_generator256_bijective).symm
  project_embed := (Equiv.ofBijective _ bitSum_generator256_bijective).symm_apply_apply
  embed_project := (Equiv.ofBijective _ bitSum_generator256_bijective).apply_symm_apply
  embed_xor := bitSum_xor _
  embed_one := bitSum_one _
  generator := by
    rw [bitSum_two]
    exact orderOf_generator256

end WrSwitch.Fec
