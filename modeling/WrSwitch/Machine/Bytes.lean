import Mathlib.Data.BitVec
import Mathlib.Data.List.TakeWhile

/-!
# Memory as a list of bytes

A pointer is modelled by the bytes from it on. Scalars are stored with the least
significant byte first, strings end at the first zero byte.
-/
namespace WrSwitch.Machine

abbrev Mem := List (BitVec 8)

/-! ### Scalars -/

def leStore : Nat → Nat → Mem
  | 0, _ => []
  | n + 1, v => BitVec.ofNat 8 v :: leStore n (v / 256)

def leLoad : Nat → Mem → Nat
  | 0, _ => 0
  | n + 1, mem => (mem.headD 0).toNat + 256 * leLoad n mem.tail

@[simp] theorem leStore_length (n v : Nat) : (leStore n v).length = n := by
  induction n generalizing v with
  | zero => rfl
  | succ n ih => simp [leStore, ih]

private theorem leLoad_leStore (n v : Nat) (rest : Mem) :
    leLoad n (leStore n v ++ rest) = v % 256 ^ n := by
  induction n generalizing v with
  | zero => simp [leLoad, Nat.mod_one]
  | succ n ih =>
    simp only [leStore, leLoad, List.cons_append, List.headD_cons, List.tail_cons, ih,
      BitVec.toNat_ofNat]
    rw [show 256 ^ (n + 1) = 256 * 256 ^ n from Nat.pow_succ', Nat.mod_mul]

/-- A load reads nothing beyond its own bytes. -/
theorem leLoad_append (n : Nat) (mem rest : Mem) (inside : n ≤ mem.length) :
    leLoad n (mem ++ rest) = leLoad n mem := by
  induction n generalizing mem with
  | zero => rfl
  | succ n ih =>
    cases mem with
    | nil => simp at inside
    | cons b mem =>
      simp only [leLoad, List.cons_append, List.headD_cons, List.tail_cons]
      rw [ih mem (by simpa using inside)]

def storeBits {w : Nat} (v : BitVec w) : Mem := leStore (w / 8) v.toNat

def loadBits (w : Nat) (mem : Mem) : BitVec w := BitVec.ofNat w (leLoad (w / 8) mem)

@[simp] theorem storeBits_length {w : Nat} (v : BitVec w) : (storeBits v).length = w / 8 :=
  leStore_length _ _

/-- What is stored is loaded. -/
theorem loadBits_storeBits {w : Nat} (whole : 8 ∣ w) (v : BitVec w) (rest : Mem) :
    loadBits w (storeBits v ++ rest) = v := by
  have bytes : 256 ^ (w / 8) = 2 ^ w := by
    rw [show 256 = 2 ^ 8 from rfl, ← Nat.pow_mul, Nat.mul_div_cancel' whole]
  rw [loadBits, storeBits, leLoad_leStore, bytes, Nat.mod_eq_of_lt v.isLt, BitVec.ofNat_toNat,
    BitVec.setWidth_eq]

/-- A load does not see what is behind its bytes. -/
theorem loadBits_append {w : Nat} (mem rest : Mem) (inside : w / 8 ≤ mem.length) :
    loadBits w (mem ++ rest) = loadBits w mem := by
  rw [loadBits, leLoad_append _ _ _ inside, loadBits]

/-! ### Strings -/

/-- The characters of the string a pointer leads to. -/
def cstr (mem : Mem) : Mem := mem.takeWhile (· ≠ 0)

def strlen (mem : Mem) : Nat := (cstr mem).length

/-- A string does not see what is behind its end. -/
theorem cstr_append (mem rest : Mem) (terminated : 0 ∈ mem) :
    cstr (mem ++ rest) = cstr mem := by
  induction mem with
  | nil => cases terminated
  | cons b mem ih =>
    by_cases final : b = 0#8
    · simp [cstr, final]
    · have later : 0 ∈ mem := (List.mem_cons.mp terminated).resolve_left (Ne.symm final)
      simpa [cstr, List.takeWhile_cons, final] using ih later

/-- A string ends at its terminator. -/
theorem cstr_terminate (s rest : Mem) (noNul : 0 ∉ s) : cstr (s ++ 0 :: rest) = s := by
  induction s with
  | nil => simp [cstr]
  | cons b s ih =>
    have first : b ≠ 0#8 := fun zero => noNul (zero ▸ List.mem_cons_self)
    have others : 0 ∉ s := fun member => noNul (List.mem_cons_of_mem _ member)
    simpa [cstr, List.takeWhile_cons, first] using ih others

end WrSwitch.Machine
