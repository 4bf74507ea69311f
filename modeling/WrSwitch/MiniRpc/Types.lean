import WrSwitch.Machine.Bytes
import WrSwitch.Machine.Run

/-!
# Data model of mini-rpc

The constants and the encodings of `minipc.h` and the structures of `minipc-int.h`
that client and server exchange.
-/
namespace WrSwitch.MiniRpc

open Machine

abbrev Byte := BitVec 8
abbrev Word := BitVec 32

/-! ### Limits and error numbers -/

def minipcMaxName : Nat := 20
def minipcMaxArguments : Nat := 256
def minipcMaxReply : Nat := 1024

def eopnotsupp : Word := 95

/-! ### Types of arguments and return values -/

/-- `enum minipc_at` -/
inductive MinipcAt
  | error | none | int | int64 | double | string | struct
deriving DecidableEq, Repr

def MinipcAt.code : MinipcAt → Nat
  | .error => 0xffff
  | .none => 0
  | .int => 1
  | .int64 => 2
  | .double => 3
  | .string => 4
  | .struct => 5

/-- The enumerator with a given value. -/
def MinipcAt.ofCode (code : Nat) : Option MinipcAt :=
  [.error, .none, .int, .int64, .double, .string, .struct].find? fun atype => atype.code = code

private theorem ofCode_code (atype : MinipcAt) : MinipcAt.ofCode atype.code = some atype := by
  cases atype <;> rfl

def minipcArgEncode (atype : MinipcAt) (asize : Nat) : Word :=
  (BitVec.ofNat 32 atype.code <<< 16) ||| BitVec.ofNat 32 asize

def minipcGetAtype (word : Word) : Option MinipcAt := MinipcAt.ofCode (word >>> 16).toNat
def minipcGetAsize (word : Word) : Nat := (word &&& 0xffff).toNat
def minipcArgEnd : Word := minipcArgEncode .none 0

/-- `MINIPC_GET_ANUM`: the words that `len` bytes take. -/
def minipcGetAnum (len : Nat) : Nat := (len + 3) >>> 2

private theorem argEncode_toNat (atype : MinipcAt) (asize : Nat) (small : asize < 2 ^ 16) :
    (minipcArgEncode atype asize).toNat = atype.code * 2 ^ 16 + asize := by
  have code : atype.code < 2 ^ 16 := by cases atype <;> decide
  simp only [minipcArgEncode, BitVec.toNat_or, BitVec.toNat_shiftLeft, BitVec.toNat_ofNat]
  rw [Nat.mod_eq_of_lt (a := atype.code) (by omega), Nat.mod_eq_of_lt (a := asize) (by omega),
    Nat.shiftLeft_eq, Nat.mod_eq_of_lt (by omega), ← Nat.shiftLeft_eq,
    ← Nat.shiftLeft_add_eq_or_of_lt small, Nat.shiftLeft_eq]

theorem getAtype_encode (atype : MinipcAt) (asize : Nat) (small : asize < 2 ^ 16) :
    minipcGetAtype (minipcArgEncode atype asize) = some atype := by
  rw [minipcGetAtype, BitVec.toNat_ushiftRight, argEncode_toNat atype asize small,
    Nat.shiftRight_eq_div_pow, show (atype.code * 2 ^ 16 + asize) / 2 ^ 16 = atype.code by omega,
    ofCode_code]

theorem getAsize_encode (atype : MinipcAt) (asize : Nat) (small : asize < 2 ^ 16) :
    minipcGetAsize (minipcArgEncode atype asize) = asize := by
  rw [minipcGetAsize, BitVec.toNat_and, argEncode_toNat atype asize small]
  change _ &&& (2 ^ 16 - 1) = _
  rw [Nat.and_two_pow_sub_one_eq_mod]
  omega

theorem getAnum_eq (len : Nat) : minipcGetAnum len = (len + 3) / 4 := by
  rw [minipcGetAnum, Nat.shiftRight_eq_div_pow]

/-! ### Descriptors and packets -/

/-- `char name[MINIPC_MAX_NAME]`, which includes the trailing zero. -/
structure Name where
  bytes : Mem
  size : bytes.length = minipcMaxName
  terminated : 0 ∈ bytes
deriving DecidableEq

/-- The characters of a literal. -/
def charBytes (s : String) : Mem := s.toList.map fun c => BitVec.ofNat 8 c.toNat

/-- The array that a literal shorter than `MINIPC_MAX_NAME` initialises. -/
def Name.ofString (s : String) (fits : s.length < minipcMaxName) : Name where
  bytes := charBytes s ++ List.replicate (minipcMaxName - s.length) 0
  size := by
    rw [List.length_append, charBytes, List.length_map, List.length_replicate,
      String.length_toList, Nat.add_sub_cancel' (Nat.le_of_lt fits)]
  terminated := by
    apply List.mem_append_right
    rw [List.mem_replicate]
    exact ⟨Nat.sub_ne_zero_of_lt fits, rfl⟩

/-- `struct minipc_pd`, with the arguments up to and including the terminator. -/
structure MinipcPd (φ : Type) where
  f : φ
  name : Name
  retval : Word
  args : List Word

/-- `struct mpc_rep_packet` -/
structure MpcRepPacket where
  type : Word
  val : Mem
deriving DecidableEq

end WrSwitch.MiniRpc
