import Mathlib.Algebra.BigOperators.Intervals
import Mathlib.Data.List.GetD
import Mathlib.Tactic.FieldSimp
import Mathlib.Tactic.LinearCombination
import Mathlib.Tactic.SplitIfs
import WrSwitch.Fec.Gf256

/-!
# The erasure code

`precompute`, `code` and `RS_code` of `code.cpp`, for its two losses. Any two symbols of a
codeword are given by the others.
-/
namespace WrSwitch.Fec

variable {F : Type} [Field F] (gf : Gf256 F)

/-! ### The circuits -/

/-- `K` -/
def losses : Nat := 2

/-- The registers of step 1 of `precompute`. -/
structure PowerRegs (F : Type) where
  g2 : F
  is : Nat → Nat
  gi : Nat → F

def PowerRegs.clock (r : PowerRegs F) : PowerRegs F where
  g2 := r.g2 * r.g2
  is := fun j => r.is j / 2
  gi := fun j => r.gi j * if r.is j % 2 = 1 then r.g2 else 1

/-- Step 1 of `precompute`: the roots of lambda. -/
def precomputeRoots (i : Nat → Nat) : Nat → F :=
  ((List.range 8).foldl (fun r _ => r.clock) ⟨gf.g, i, fun _ => 1⟩ : PowerRegs F).gi

/-- Step 2 of `precompute`: the coefficients of lambda. -/
def precomputeLambda (gi : Nat → F) : Nat → F :=
  (List.range losses).foldl
    (fun lambda clock j =>
      if j = 0 then lambda 0 * gi clock else lambda j * gi clock + lambda (j - 1))
    fun j => if j = 0 then 1 else 0

/-- The registers of `code`. -/
structure CodeRegs (F : Type) where
  lg : Nat → F
  gic : Nat → F
  a : Nat → F
  dli : Nat → F

variable [DecidableEq F] in
/-- What `code` does with the symbol `c[clock]`. -/
def CodeRegs.clock (c : Nat → F) (r : CodeRegs F) (clock : Nat) : CodeRegs F where
  lg := fun j => r.lg j * gf.g ^ ((j : Int) - 1)
  gic := fun j => r.gic j * gf.g⁻¹
  a := fun j =>
    r.a j + c clock * ((List.range (losses + 1)).map r.lg).sum / (1 - r.gic j)
  dli := fun j =>
    if 1 - r.gic j = 0 then
      (((List.range (losses + 1)).filter fun j => j % 2 = 1).map r.lg).sum
    else r.dli j

variable [DecidableEq F] in
/-- `code`: the value it gives the missing symbol `i[j]`, of `n` symbols. -/
def code (n : Nat) (c gi lambda : Nat → F) (j : Nat) : F :=
  let r := (List.range n).foldl (CodeRegs.clock gf c) ⟨lambda, gi, fun _ => 0, fun _ => 0⟩
  r.a j * (r.dli j)⁻¹

def maxFragSize : Nat := 1500

/-- The positions without a fragment. -/
def missing (fragments : List (Option (List Byte))) : List Nat :=
  (List.range fragments.length).filter fun i => decide (fragments[i]? = some none)

/-- The symbols of stripe `i`; a missing one is 0. -/
def stripe (fragments : List (Option (List Byte))) (i : Nat) (j : Nat) : F :=
  match fragments[j]? with
  | some (some fragment) => gf.embed (fragment.getD i 0)
  | _ => 0

variable [DecidableEq F] in
/-- The fragment that `RS_code` puts in place of the missing one number `j`. -/
def recovered (fragLen : Nat) (fragments : List (Option (List Byte))) (j : Nat) : List Byte :=
  let gi := precomputeRoots gf fun j => (missing fragments).getD j 0
  (List.range fragLen).map fun i =>
    gf.project (code gf fragments.length (stripe gf fragments i) gi (precomputeLambda gi) j)

variable [DecidableEq F] in
/-- `RS_code`. Its assertions fail for long fragments and for more than two missing ones; with
fewer it would use positions that were never set. -/
def rsCode (fragLen : Nat) (fragments : List (Option (List Byte))) : Option (List (List Byte)) :=
  if fragLen < maxFragSize ∧ losses < fragments.length ∧ (missing fragments).length = losses then
    some ((List.range fragments.length).map fun k =>
      match fragments[k]? with
      | some (some fragment) => fragment
      | _ => recovered gf fragLen fragments ((missing fragments).idxOf k))
  else none

/-! ### What the circuits compute -/

/-- A clock of step 1 handles one bit of the index. -/
theorem powerRegs_clocks (k : Nat) (r : PowerRegs F) (j : Nat) :
    ((List.range k).foldl (fun r _ => r.clock) r).gi j *
        ((List.range k).foldl (fun r _ => r.clock) r).g2 ^
          ((List.range k).foldl (fun r _ => r.clock) r).is j =
      r.gi j * r.g2 ^ r.is j := by
  induction k with
  | zero => rfl
  | succ k ih =>
    rw [List.range_succ, List.foldl_append, List.foldl_cons, List.foldl_nil, ← ih]
    generalize (List.range k).foldl (fun r _ => PowerRegs.clock r) r = s
    -- one clock takes the lowest bit off the exponent
    have bit : s.g2 ^ s.is j =
        (if s.is j % 2 = 1 then s.g2 else 1) * (s.g2 * s.g2) ^ (s.is j / 2) := by
      rw [← pow_two, ← pow_mul]
      split
      next odd =>
        rw [← pow_succ', ← odd, Nat.div_add_mod]
      next even =>
        rw [one_mul]
        congr 1
        omega
    rw [bit, PowerRegs.clock, mul_assoc]

private theorem powerRegs_is (k : Nat) (r : PowerRegs F) (j : Nat) :
    ((List.range k).foldl (fun r _ => r.clock) r).is j = r.is j / 2 ^ k := by
  induction k with
  | zero => exact (Nat.div_one _).symm
  | succ k ih =>
    rw [List.range_succ, List.foldl_append, List.foldl_cons, List.foldl_nil]
    change ((List.range k).foldl (fun r _ => PowerRegs.clock r) r).is j / 2 = _
    rw [ih, Nat.div_div_eq_div_mul, pow_succ]

private theorem precomputeRoots_eq (i : Nat → Nat) {j : Nat} (small : i j < 256) :
    precomputeRoots gf i j = gf.g ^ i j := by
  have clocks := powerRegs_clocks 8 (⟨gf.g, i, fun _ => 1⟩ : PowerRegs F) j
  rw [powerRegs_is, Nat.div_eq_of_lt (show i j < 2 ^ 8 from small), pow_zero, mul_one,
    one_mul] at clocks
  exact clocks

private theorem precomputeLambda_eq (gi : Nat → F) :
    precomputeLambda gi 0 = gi 0 * gi 1 ∧ precomputeLambda gi 1 = gi 0 + gi 1 ∧
      precomputeLambda gi 2 = 1 := by
  simp [precomputeLambda, losses, List.range_succ, add_comm]

include gf in
/-- What `code` reads of the lambda of two missing positions when symbol `x` passes. -/
theorem lambda_over_divisor {x root : F} (other : F) (nonzero : x ≠ 0) (apart : x ≠ root) :
    (root * other * x⁻¹ + (root + other) + x) / (1 - root * x⁻¹) = x + other := by
  have divisor : 1 - root * x⁻¹ ≠ 0 := by
    intro zero
    exact apart (by rwa [sub_eq_zero, eq_mul_inv_iff_mul_eq₀ nonzero, one_mul] at zero)
  rw [div_eq_iff divisor, gf.sub_eq]
  field_simp
  ring

variable [DecidableEq F] in
/-- The registers of decoder `j` after `k` symbols, where the other position is `other`. -/
theorem codeRegs_clocks {c gi lambda : Nat → F} {i j other : Nat} (small : i < 255)
    (own : gi j = gf.g ^ i) (erased : c i = 0) (lambda0 : lambda 0 = gf.g ^ i * gf.g ^ other)
    (lambda1 : lambda 1 = gf.g ^ i + gf.g ^ other) (lambda2 : lambda 2 = 1) {k : Nat}
    (inside : k ≤ 255) :
    let r := (List.range k).foldl (CodeRegs.clock gf c) ⟨lambda, gi, fun _ => 0, fun _ => 0⟩
    (∀ m, r.lg m = lambda m * (gf.g ^ ((m : Int) - 1)) ^ k) ∧
      r.gic j = gf.g ^ i * (gf.g ^ k)⁻¹ ∧
      r.a j = ∑ m ∈ Finset.range k, c m * (gf.g ^ m + gf.g ^ other) ∧
      r.dli j = if i < k then gf.g ^ i + gf.g ^ other else 0 := by
  induction k with
  | zero => simp [own]
  | succ k ih =>
    obtain ⟨lg, gic, a, dli⟩ := ih (Nat.le_of_succ_le inside)
    rw [List.range_succ, List.foldl_append, List.foldl_cons, List.foldl_nil]
    generalize (List.range k).foldl _ _ = r at lg gic a dli ⊢
    have power : gf.g ^ k ≠ 0 := pow_ne_zero k gf.g_ne_zero
    -- the three terms of lambda at this clock
    have lg0 : r.lg 0 = gf.g ^ i * gf.g ^ other * (gf.g ^ k)⁻¹ := by
      rw [lg, lambda0]
      simp
    have lg1 : r.lg 1 = gf.g ^ i + gf.g ^ other := by
      rw [lg, lambda1]
      simp
    have lg2 : r.lg 2 = gf.g ^ k := by
      rw [lg, lambda2]
      norm_num
    -- the divisor is zero only at the erased position itself
    have divisorZero : 1 - r.gic j = 0 ↔ k = i := by
      rw [sub_eq_zero, gic, eq_mul_inv_iff_mul_eq₀ power, one_mul]
      constructor
      · exact gf.g_pow_inj inside small
      · rintro rfl
        rfl
    refine ⟨fun m => ?_, ?_, ?_, ?_⟩
    · simp only [CodeRegs.clock]
      rw [lg, pow_succ, mul_assoc]
    · simp only [CodeRegs.clock]
      rw [gic, pow_succ, mul_inv, mul_assoc]
    · have sum : ((List.range (losses + 1)).map r.lg).sum =
          gf.g ^ i * gf.g ^ other * (gf.g ^ k)⁻¹ + (gf.g ^ i + gf.g ^ other) + gf.g ^ k := by
        rw [← lg0, ← lg1, ← lg2]
        simp [losses, List.range_succ, add_assoc]
      simp only [CodeRegs.clock]
      rw [Finset.sum_range_succ, a, sum]
      congr 1
      -- there the symbol is zero, whatever the division gives
      by_cases same : k = i
      · rw [same, erased, zero_mul, zero_mul, zero_div]
      · rw [mul_div_assoc, gic, lambda_over_divisor gf _ power fun root =>
          same (gf.g_pow_inj inside small root)]
    · simp only [CodeRegs.clock]
      by_cases same : k = i
      · rw [if_pos (divisorZero.mpr same), if_pos (by omega), ← lg1]
        simp [losses, List.range_succ]
      · rw [if_neg (mt divisorZero.mp same), dli]
        split_ifs
        · rfl
        · omega
        · omega
        · rfl

/-- Two positions of a codeword of `n` symbols that are without a symbol. -/
structure Erased (n : Nat) (i : Nat → Nat) (c : Nat → F) : Prop where
  short : n ≤ 255
  inside : ∀ j < losses, i j < n
  apart : i 0 ≠ i 1
  empty : ∀ j < losses, c (i j) = 0

variable [DecidableEq F] in
private theorem code_eq {n : Nat} {i : Nat → Nat} {c : Nat → F} (erased : Erased n i c)
    {j other : Nat} (both : j = 0 ∧ other = 1 ∨ j = 1 ∧ other = 0) :
    code gf n c (precomputeRoots gf i) (precomputeLambda (precomputeRoots gf i)) j =
      (∑ m ∈ Finset.range n, c m * gf.g ^ m +
          (∑ m ∈ Finset.range n, c m) * gf.g ^ i other) * (gf.g ^ i j + gf.g ^ i other)⁻¹ := by
  have below : j < losses ∧ other < losses := by
    rw [losses]
    omega
  have root {j : Nat} (lost : j < losses) : precomputeRoots gf i j = gf.g ^ i j := by
    have inside := erased.inside j lost
    have short := erased.short
    exact precomputeRoots_eq gf i (by omega)
  have inside := erased.inside j below.1
  obtain ⟨lambda0, lambda1, lambda2⟩ := precomputeLambda_eq (precomputeRoots gf i)
  rw [root (show 0 < losses by decide), root (show 1 < losses by decide)] at lambda0 lambda1
  -- lambda is the product of the two roots, their sum and 1, in either order of the roots
  have clocks := codeRegs_clocks gf (lt_of_lt_of_le inside erased.short) (root below.1)
    (erased.empty j below.1)
    (show precomputeLambda (precomputeRoots gf i) 0 = gf.g ^ i j * gf.g ^ i other by
      obtain ⟨rfl, rfl⟩ | ⟨rfl, rfl⟩ := both
      · exact lambda0
      · rw [lambda0, mul_comm])
    (show precomputeLambda (precomputeRoots gf i) 1 = gf.g ^ i j + gf.g ^ i other by
      obtain ⟨rfl, rfl⟩ | ⟨rfl, rfl⟩ := both
      · exact lambda1
      · rw [lambda1, add_comm])
    lambda2 erased.short
  obtain ⟨-, -, a, dli⟩ := clocks
  unfold code
  simp only []
  rw [a, dli, if_pos inside]
  simp only [mul_add, Finset.sum_add_distrib, Finset.sum_mul]

/-- The two sums that vanish on the multiples of `(x - 1) (x - g)`. -/
def Codeword (n : Nat) (d : Nat → F) : Prop :=
  ∑ m ∈ Finset.range n, d m = 0 ∧ ∑ m ∈ Finset.range n, d m * gf.g ^ m = 0

/-- A sum over a word that differs in the two erased positions only. -/
theorem Erased.sum_eq {n : Nat} {i : Nat → Nat} {c d : Nat → F} (erased : Erased n i c)
    (known : ∀ m < n, (∀ j < losses, m ≠ i j) → d m = c m) (w : Nat → F) :
    ∑ m ∈ Finset.range n, d m * w m =
      ∑ m ∈ Finset.range n, c m * w m + d (i 0) * w (i 0) + d (i 1) * w (i 1) := by
  have apart := erased.apart
  have empty0 := erased.empty 0 (by decide)
  have empty1 := erased.empty 1 (by decide)
  -- a term is that of a known symbol or of one of the two erased ones
  have pointwise (m : Nat) (inside : m ∈ Finset.range n) : d m * w m =
      c m * w m + (if m = i 0 then d m * w m else 0) + if m = i 1 then d m * w m else 0 := by
    by_cases first : m = i 0
    · subst first
      rw [if_pos rfl, if_neg apart, empty0]
      ring
    · by_cases second : m = i 1
      · subst second
        rw [if_neg first, if_pos rfl, empty1]
        ring
      · rw [if_neg first, if_neg second, known m (Finset.mem_range.mp inside) fun j lost => by
          obtain rfl | rfl : j = 0 ∨ j = 1 := by
            rw [losses] at lost
            omega
          · exact first
          · exact second]
        ring
  have inside0 := Finset.mem_range.mpr (erased.inside 0 (by decide))
  have inside1 := Finset.mem_range.mpr (erased.inside 1 (by decide))
  rw [Finset.sum_congr rfl pointwise, Finset.sum_add_distrib, Finset.sum_add_distrib,
    Finset.sum_ite_eq', Finset.sum_ite_eq', if_pos inside0, if_pos inside1]

variable [DecidableEq F] in
/-- The erased symbols of a codeword are found. -/
theorem code_recovers {n : Nat} {i : Nat → Nat} {c d : Nat → F} (erased : Erased n i c)
    (known : ∀ m < n, (∀ j < losses, m ≠ i j) → d m = c m) (word : Codeword gf n d) {j : Nat}
    (lost : j < losses) :
    code gf n c (precomputeRoots gf i) (precomputeLambda (precomputeRoots gf i)) j = d (i j) := by
  obtain ⟨other, both⟩ : ∃ other, j = 0 ∧ other = 1 ∨ j = 1 ∧ other = 0 := by
    rw [losses] at lost
    exact ⟨1 - j, by omega⟩
  obtain ⟨plain, weighted⟩ := word
  have sums := erased.sum_eq known fun _ => 1
  have sums' := erased.sum_eq known (gf.g ^ ·)
  simp only [mul_one] at sums
  rw [plain] at sums
  rw [weighted] at sums'
  have distinct : gf.g ^ i j + gf.g ^ i other ≠ 0 := by
    have inside0 := erased.inside 0 (by decide)
    have inside1 := erased.inside 1 (by decide)
    have short := erased.short
    obtain ⟨rfl, rfl⟩ | ⟨rfl, rfl⟩ := both
    · exact gf.g_pow_add_ne_zero (by omega) (by omega) erased.apart
    · exact gf.g_pow_add_ne_zero (by omega) (by omega) erased.apart.symm
  rw [code_eq gf erased both, mul_inv_eq_iff_eq_mul₀ distinct]
  have two := gf.add_self (1 : F)
  -- the two vanishing sums, the plain one taken times the root of the other position
  obtain ⟨rfl, rfl⟩ | ⟨rfl, rfl⟩ := both
  · linear_combination -sums' - gf.g ^ i 1 * sums -
      (d (i 0) * gf.g ^ i 0 + d (i 0) * gf.g ^ i 1 + d (i 1) * gf.g ^ i 1) * two
  · linear_combination -sums' - gf.g ^ i 0 * sums -
      (d (i 1) * gf.g ^ i 1 + d (i 1) * gf.g ^ i 0 + d (i 0) * gf.g ^ i 0) * two

variable [DecidableEq F] in
/-- The symbols put in the erased positions make a codeword. -/
theorem code_completes {n : Nat} {i : Nat → Nat} {c d : Nat → F} (erased : Erased n i c)
    (known : ∀ m < n, (∀ j < losses, m ≠ i j) → d m = c m) (filled : ∀ j < losses, d (i j) =
      code gf n c (precomputeRoots gf i) (precomputeLambda (precomputeRoots gf i)) j) :
    Codeword gf n d := by
  have sums := erased.sum_eq known fun _ => 1
  have sums' := erased.sum_eq known (gf.g ^ ·)
  rw [filled 0 (by decide), filled 1 (by decide), code_eq gf erased (.inl ⟨rfl, rfl⟩),
    code_eq gf erased (.inr ⟨rfl, rfl⟩)] at sums sums'
  simp only [mul_one] at sums
  have distinct : gf.g ^ i 0 + gf.g ^ i 1 ≠ 0 := by
    have inside0 := erased.inside 0 (by decide)
    have inside1 := erased.inside 1 (by decide)
    have short := erased.short
    exact gf.g_pow_add_ne_zero (by omega) (by omega) erased.apart
  have two := gf.add_self (1 : F)
  -- two equations in the sums over the known symbols, by which nothing but 2 = 0 is left
  rw [Codeword, sums, sums', add_comm (gf.g ^ i 1)]
  generalize ∑ m ∈ Finset.range n, c m = plain
  generalize ∑ m ∈ Finset.range n, c m * gf.g ^ m = weighted
  constructor
  · field_simp
    linear_combination (plain * gf.g ^ i 0 + plain * gf.g ^ i 1 + weighted) * two
  · field_simp
    linear_combination (weighted * gf.g ^ i 0 + weighted * gf.g ^ i 1 +
      plain * gf.g ^ i 0 * gf.g ^ i 1) * two

/-! ### Fragments -/

/-- The missing positions are those without a fragment. -/
theorem mem_missing {fragments : List (Option (List Byte))} {k : Nat} :
    k ∈ missing fragments ↔ fragments[k]? = some none := by
  rw [missing, List.mem_filter, decide_eq_true_iff, List.mem_range, and_iff_right_iff_imp]
  intro lost
  exact (List.getElem?_eq_some_iff.mp lost).1

theorem nodup_missing (fragments : List (Option (List Byte))) : (missing fragments).Nodup :=
  List.nodup_range.filter _

/-- The position of lost fragment `j`. -/
def lostAt (fragments : List (Option (List Byte))) (j : Nat) : Nat :=
  (missing fragments).getD j 0

private theorem lostAt_mem {fragments : List (Option (List Byte))}
    (two : (missing fragments).length = losses) {j : Nat} (lost : j < losses) :
    fragments[lostAt fragments j]? = some none := by
  rw [← mem_missing, lostAt, List.getD_eq_getElem _ _ (two ▸ lost)]
  exact List.getElem_mem _

private theorem exists_lostAt {fragments : List (Option (List Byte))}
    (two : (missing fragments).length = losses) {k : Nat} (empty : fragments[k]? = some none) :
    (missing fragments).idxOf k < losses ∧
      lostAt fragments ((missing fragments).idxOf k) = k := by
  have inside := List.idxOf_lt_length_iff.mpr (mem_missing.mpr empty)
  refine ⟨two ▸ inside, ?_⟩
  rw [lostAt, List.getD_eq_getElem _ _ inside, List.getElem_idxOf]

private theorem erased_stripe {fragments : List (Option (List Byte))}
    (two : (missing fragments).length = losses) (short : fragments.length ≤ 255) (s : Nat) :
    Erased fragments.length (lostAt fragments) (stripe gf fragments s) where
  short := short
  inside j lost := (List.getElem?_eq_some_iff.mp (lostAt_mem two lost)).1
  apart := by
    have nodup := nodup_missing fragments
    rw [losses] at two
    rw [lostAt, lostAt, List.getD_eq_getElem _ _ (by omega), List.getD_eq_getElem _ _ (by omega)]
    exact fun same => absurd ((nodup.getElem_inj_iff).mp same) (by decide)
  empty j lost := by rw [stripe, lostAt_mem two lost]

/-- Symbol `k` of stripe `s` of the words. -/
def symbol (words : List (List Byte)) (s k : Nat) : F :=
  gf.embed ((words.getD k []).getD s 0)

/-- Every stripe of the words is a codeword. -/
def RsWord (fragLen : Nat) (words : List (List Byte)) : Prop :=
  ∀ s < fragLen, Codeword gf words.length (symbol gf words s)

variable [DecidableEq F]

/-- What a successful call says: two fragments were missing, and those that came are kept. -/
theorem rsCode_eq_some {fragLen : Nat} {fragments : List (Option (List Byte))}
    {words : List (List Byte)} (done : rsCode gf fragLen fragments = some words) :
    (missing fragments).length = losses ∧ words.length = fragments.length ∧
      (∀ k w, fragments[k]? = some (some w) → words.getD k [] = w) ∧
      ∀ k, fragments[k]? = some none →
        words.getD k [] = recovered gf fragLen fragments ((missing fragments).idxOf k) := by
  unfold rsCode at done
  split at done
  next accepted =>
    obtain ⟨-, -, two⟩ := accepted
    cases done
    refine ⟨two, by simp, fun k w known => ?_, fun k empty => ?_⟩
    · have inside := (List.getElem?_eq_some_iff.mp known).1
      rw [List.getD_eq_getElem _ _ (by simpa using inside)]
      simp [known]
    · have inside := (List.getElem?_eq_some_iff.mp empty).1
      rw [List.getD_eq_getElem _ _ (by simpa using inside)]
      simp [empty]
  · cases done

/-- A recovered word has the length that was asked for. -/
theorem length_recovered (fragLen : Nat) (fragments : List (Option (List Byte))) (j : Nat) :
    (recovered gf fragLen fragments j).length = fragLen := by
  simp [recovered]

/-- A symbol that `RS_code` filled in. -/
theorem symbol_recovered {fragLen : Nat} {fragments : List (Option (List Byte))} (j : Nat)
    {s : Nat} (inside : s < fragLen) :
    gf.embed ((recovered gf fragLen fragments j).getD s 0) =
      code gf fragments.length (stripe gf fragments s)
        (precomputeRoots gf (lostAt fragments))
        (precomputeLambda (precomputeRoots gf (lostAt fragments))) j := by
  rw [List.getD_eq_getElem _ _ (by rwa [length_recovered])]
  simp only [recovered, List.getElem_map, List.getElem_range, gf.embed_project]
  rfl

omit [DecidableEq F] in
/-- Away from the lost positions a word agrees with the stripe of the fragments. -/
theorem symbol_known {fragments : List (Option (List Byte))} {words : List (List Byte)} {s : Nat}
    (two : (missing fragments).length = losses)
    (agree : ∀ k w, fragments[k]? = some (some w) → w.getD s 0 = (words.getD k []).getD s 0)
    (k : Nat) (inside : k < fragments.length) (kept : ∀ j < losses, k ≠ lostAt fragments j) :
    symbol gf words s k = stripe gf fragments s k := by
  rw [symbol, stripe]
  split
  next w known => rw [agree k w known]
  next other =>
    exfalso
    cases fragment : fragments[k] with
    | none =>
      obtain ⟨lost, here⟩ := exists_lostAt two (List.getElem?_eq_some_iff.mpr ⟨inside, fragment⟩)
      exact kept _ lost here.symm
    | some w => exact other w (List.getElem?_eq_some_iff.mpr ⟨inside, fragment⟩)

/-- The fragments that `RS_code` fills in complete a codeword. -/
theorem rsCode_completes {fragLen : Nat} {fragments : List (Option (List Byte))}
    {words : List (List Byte)} (short : fragments.length ≤ 255)
    (done : rsCode gf fragLen fragments = some words) : RsWord gf fragLen words := by
  obtain ⟨two, length, known, filled⟩ := rsCode_eq_some gf done
  intro s inside
  rw [length]
  refine code_completes gf (erased_stripe gf two short s)
    (symbol_known gf two fun k w here => by rw [known k w here]) fun j lost => ?_
  have empty := lostAt_mem two lost
  rw [symbol, filled _ empty, symbol_recovered gf _ inside]
  congr 1
  rw [lostAt, List.getD_eq_getElem _ _ (two ▸ lost), (nodup_missing fragments).idxOf_getElem]

/-- Of a codeword any two fragments may be lost. -/
theorem rsCode_recovers {fragLen : Nat} {fragments : List (Option (List Byte))}
    {words : List (List Byte)} (bound : fragLen < maxFragSize) (many : losses < fragments.length)
    (short : fragments.length ≤ 255) (two : (missing fragments).length = losses)
    (word : RsWord gf fragLen words) (length : words.length = fragments.length)
    (agree : ∀ s < fragLen, ∀ k w, fragments[k]? = some (some w) →
      w.getD s 0 = (words.getD k []).getD s 0) :
    ∃ found, rsCode gf fragLen fragments = some found ∧ ∀ k < fragments.length, ∀ s < fragLen,
      (found.getD k []).getD s 0 = (words.getD k []).getD s 0 := by
  obtain ⟨found, done⟩ : ∃ found, rsCode gf fragLen fragments = some found :=
    ⟨_, if_pos ⟨bound, many, two⟩⟩
  obtain ⟨-, -, known, filled⟩ := rsCode_eq_some gf done
  refine ⟨found, done, fun k inside s stripeInside => ?_⟩
  -- a fragment that came is kept, a lost one is decoded stripe by stripe
  cases fragment : fragments[k] with
  | some w =>
    have here := List.getElem?_eq_some_iff.mpr ⟨inside, fragment⟩
    rw [known k w here, agree s stripeInside k w here]
  | none =>
    have here := List.getElem?_eq_some_iff.mpr ⟨inside, fragment⟩
    obtain ⟨lost, place⟩ := exists_lostAt two here
    have value := code_recovers gf (erased_stripe gf two short s)
      (symbol_known gf two (agree s stripeInside)) (length ▸ word s stripeInside) lost
    rw [← symbol_recovered gf _ stripeInside, ← filled k here, place] at value
    rw [← gf.project_embed ((found.getD k []).getD s 0), value, symbol, gf.project_embed]

end WrSwitch.Fec
