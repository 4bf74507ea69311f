import WrSwitch.MiniRpc.Types
import Mathlib.Data.List.GetD

/-!
# Marshalling of arguments

The loop of `minipc_call` that packs the arguments into the request, and
`minipc_get_next_arg`, with which a handler walks over them.
-/
namespace WrSwitch.MiniRpc

open Machine

/-! ### The client -/

/-- The bytes of the packet from `p_out->args` on. -/
abbrev ArgBytes := Nat → Byte

/-- Store to consecutive bytes. -/
def store (out : ArgBytes) (pos : Nat) (bytes : Mem) : ArgBytes := fun a =>
  if pos ≤ a ∧ a < pos + bytes.length then bytes.getD (a - pos) 0 else out a

/-- The bytes in `[pos, pos + len)`. -/
def window (out : ArgBytes) (pos len : Nat) : Mem := (List.range len).map fun i => out (pos + i)

/-- What `va_arg` delivers: an `int`, a `uint64_t` or the bits of a `double`, the characters
of the string or the bytes of the structure that the pointer leads to. -/
inductive VaArg
  | int (v : Word)
  | word64 (v : BitVec 64)
  | string (s : Mem)
  | struct (bytes : Mem)
deriving DecidableEq

/-- How the loop ends. -/
inductive Marshalled
  | eproto
  /-- `strcpy` past the end of the packet, or a value of another type than declared -/
  | undefined
  | packed (narg : Nat) (out : ArgBytes)

/-- `MINIPC_GET_ANUM` of an `int`. -/
def minipcGetAnumInt (len : Word) : Int := ((len + 3).sshiftRight 2).toInt

/-- How one turn of the loop ends. -/
inductive MarshalTurn
  | stop (result : Marshalled)
  | next (ap : List VaArg) (narg : Nat) (out : ArgBytes)

/-- The string case of the loop. -/
def marshalString (sin : Mem) (ap : List VaArg) (narg : Nat) (out : ArgBytes) : MarshalTurn :=
  -- `strlen` is assigned to an `int`
  let slen := BitVec.ofNat 32 sin.length
  let alen := minipcGetAnumInt (slen + 1)
  if minipcMaxArguments ≤ narg + alen then .stop .eproto
  else if 4 * minipcMaxArguments < 4 * narg + (sin.length + 1) then .stop .undefined
  else .next ap (narg + alen.toNat) (store out (4 * narg) (sin ++ [0]))

/-- One turn of the loop over `pd->args`. -/
def marshalTurn (arg : Word) (ap : List VaArg) (narg : Nat) (out : ArgBytes) : MarshalTurn :=
  let asize := minipcGetAsize arg
  let nextNarg := narg + minipcGetAnum asize
  if minipcMaxArguments ≤ nextNarg then .stop .eproto
  else match minipcGetAtype arg with
    | some .none => .stop (.packed narg out)
    | some .int =>
      match ap with
      | .int v :: ap => .next ap (narg + 1) (store out (4 * narg) (storeBits v))
      | _ => .stop .undefined
    | some .int64 | some .double =>
      match ap with
      | .word64 v :: ap => .next ap nextNarg (store out (4 * narg) (storeBits v))
      | _ => .stop .undefined
    | some .string =>
      match ap with
      | .string sin :: ap => marshalString sin ap narg out
      | _ => .stop .undefined
    | some .struct =>
      match ap with
      | .struct bytes :: ap => .next ap nextNarg (store out (4 * narg) (bytes.take asize))
      | _ => .stop .undefined
    | some .error | none => .stop .eproto

def marshal : List Word → List VaArg → Nat → ArgBytes → Marshalled
  | [], _, _, _ => .undefined
  | arg :: args, ap, narg, out =>
    match marshalTurn arg ap narg out with
    | .stop result => result
    | .next ap narg out => marshal args ap narg out

/-! ### The server -/

/-- The `asize` of `minipc_get_next_arg`: the words it steps over. -/
def argWords (arg : Mem) (atype : Word) : Nat :=
  if minipcGetAtype atype ≠ some .string then minipcGetAnum (minipcGetAsize atype)
  else minipcGetAnum (strlen arg + 1)

def minipcGetNextArg (arg : Mem) (atype : Word) : Mem := arg.drop (4 * argWords arg atype)

/-- What a handler finds at an argument of a given type. -/
def readArg (arg : Mem) (atype : Word) : Option VaArg :=
  match minipcGetAtype atype with
  | some .int => some (.int (loadBits 32 arg))
  | some .int64 | some .double => some (.word64 (loadBits 64 arg))
  | some .string => some (.string (cstr arg))
  | some .struct => some (.struct (arg.take (minipcGetAsize atype)))
  | _ => none

/-- A walk along the declared arguments, with the pointer after the last one. -/
def readArgs : List Word → Mem → List (Option VaArg) × Mem
  | [], arg => ([], arg)
  | atype :: types, arg =>
    let (values, rest) := readArgs types (minipcGetNextArg arg atype)
    (readArg arg atype :: values, rest)

/-- The bytes that a walk along the declared arguments passes. -/
def declaredBytes : List Word → Mem → Nat
  | [], _ => 0
  | atype :: types, arg =>
    4 * argWords arg atype + declaredBytes types (minipcGetNextArg arg atype)

/-! ### Arguments with their declarations -/

/-- A string, whose length fits the 32-bit `size_t` of the switch. -/
structure CString where
  chars : Mem
  noNul : 0 ∉ chars
  size : chars.length < 2 ^ 32

/-- The size of a declared type; the encoding has 16 bits for it. -/
abbrev Asize := Fin (2 ^ 16)

/-- A declared argument together with a value of the declared type. -/
inductive Arg
  | int (v : Word)
  | int64 (v : BitVec 64)
  | double (v : BitVec 64)
  | string (asize : Asize) (s : CString)
  | struct (asize : Asize) (bytes : { bs : Mem // bs.length = asize.val })

def Arg.atype : Arg → MinipcAt
  | .int _ => .int
  | .int64 _ => .int64
  | .double _ => .double
  | .string _ _ => .string
  | .struct _ _ => .struct

def Arg.asize : Arg → Nat
  | .int _ => 4
  | .int64 _ | .double _ => 8
  | .string asize _ | .struct asize _ => asize

/-- The word of the descriptor. -/
def Arg.slot (a : Arg) : Word := minipcArgEncode a.atype a.asize

def Arg.value : Arg → VaArg
  | .int v => .int v
  | .int64 v | .double v => .word64 v
  | .string _ s => .string s.chars
  | .struct _ bytes => .struct bytes

/-- The bytes that are stored for the value. -/
def Arg.bytes : Arg → Mem
  | .int v => storeBits v
  | .int64 v | .double v => storeBits v
  | .string _ s => s.chars ++ [0]
  | .struct _ bytes => bytes

/-- The words that the value takes in the packet. -/
def Arg.words (a : Arg) : Nat := minipcGetAnum a.bytes.length

/-- The words that the declaration announces. -/
def Arg.slotWords (a : Arg) : Nat := minipcGetAnum a.asize

/-- The word count of this string overflows an `int`. -/
def Arg.Long : Arg → Prop
  | .string _ s => 2 ^ 31 ≤ s.chars.length + 4
  | .int _ | .int64 _ | .double _ | .struct _ _ => False

instance : ∀ a : Arg, Decidable a.Long
  | .string _ s => inferInstanceAs (Decidable (2 ^ 31 ≤ s.chars.length + 4))
  | .int _ | .int64 _ | .double _ | .struct _ _ => isFalse id

def wordsOf (args : List Arg) : Nat := (args.map Arg.words).sum

/-- `pd->args` -/
def declared (args : List Arg) : List Word := args.map Arg.slot ++ [minipcArgEnd]

/-- From word `narg` on, every argument ends below `MINIPC_MAX_ARGUMENTS`, by its value and by
its declaration. -/
def Accepts : Nat → List Arg → Prop
  | narg, [] => narg < minipcMaxArguments
  | narg, a :: args => narg + a.slotWords < minipcMaxArguments ∧
      narg + a.words < minipcMaxArguments ∧ Accepts (narg + a.words) args

/-- The first argument that does not end below `MINIPC_MAX_ARGUMENTS` is a string whose word
count overflows an `int`, with a declaration that does end below. -/
def Overruns : Nat → List Arg → Prop
  | _, [] => False
  | narg, a :: args => narg + a.slotWords < minipcMaxArguments ∧
      (a.Long ∨ narg + a.words < minipcMaxArguments ∧ Overruns (narg + a.words) args)

/-- The server reads back what was passed, whatever follows the words that were sent, or the
call fails because the arguments do not fit. -/
def RoundTrips (args : List Arg) (out : ArgBytes) : Prop :=
  (marshal (declared args) (args.map Arg.value) 0 out = .eproto ∧
      minipcMaxArguments < wordsOf args) ∨
    ∃ narg out', marshal (declared args) (args.map Arg.value) 0 out = .packed narg out' ∧
      ∀ rest, readArgs (args.map Arg.slot) (window out' 0 (4 * narg) ++ rest) =
        (args.map fun a => some a.value, rest)

/-! ### Memory -/

private theorem window_append (out : ArgBytes) (pos m n : Nat) :
    window out pos (m + n) = window out pos m ++ window out (pos + m) n := by
  simp [window, List.range_add, Nat.add_assoc]

private theorem window_congr (out out' : ArgBytes) (pos len : Nat)
    (same : ∀ a < pos + len, out' a = out a) : window out' pos len = window out pos len := by
  apply List.map_congr_left
  intro i member
  exact same _ (by have := List.mem_range.mp member; omega)

private theorem store_below (out : ArgBytes) (pos : Nat) (bytes : Mem) (a : Nat) (below : a < pos) :
    store out pos bytes a = out a := by
  simp only [store]
  rw [if_neg (by omega)]

private theorem window_store (out : ArgBytes) (pos : Nat) (bytes : Mem) :
    window (store out pos bytes) pos bytes.length = bytes := by
  apply List.ext_getElem
  · simp [window]
  · intro i _ inside
    simp only [window, List.getElem_map, List.getElem_range, store]
    rw [if_pos (by omega), Nat.add_sub_cancel_left, List.getD_eq_getElem _ _ inside]

/-! ### Word counts -/

private theorem anumInt_toInt (len : Nat) :
    minipcGetAnumInt (BitVec.ofNat 32 len + 1) = (BitVec.ofNat 32 (len + 4)).toInt / 4 := by
  have total : BitVec.ofNat 32 len + 1 + 3 = BitVec.ofNat 32 (len + 4) := by
    change BitVec.ofNat 32 len + BitVec.ofNat 32 1 + BitVec.ofNat 32 3 = _
    rw [← BitVec.ofNat_add, ← BitVec.ofNat_add]
  rw [minipcGetAnumInt, total, BitVec.toInt_sshiftRight, Int.shiftRight_eq_div_pow]
  rfl

private theorem anumInt_short (len : Nat) (short : len + 4 < 2 ^ 31) :
    minipcGetAnumInt (BitVec.ofNat 32 len + 1) = minipcGetAnum (len + 1) := by
  rw [anumInt_toInt, getAnum_eq, BitVec.toInt_eq_toNat_cond, BitVec.toNat_ofNat]
  omega

private theorem anumInt_long (len : Nat) (long : 2 ^ 31 ≤ len + 4) (size : len < 2 ^ 32) :
    minipcGetAnumInt (BitVec.ofNat 32 len + 1) ≤ 0 := by
  rw [anumInt_toInt, BitVec.toInt_eq_toNat_cond, BitVec.toNat_ofNat]
  omega

private theorem Arg.asize_lt (a : Arg) : a.asize < 2 ^ 16 := by
  cases a with
  | int | int64 | double => simp [Arg.asize]
  | string asize | struct asize => exact asize.isLt

private theorem slot_atype (a : Arg) : minipcGetAtype a.slot = some a.atype :=
  getAtype_encode _ _ a.asize_lt

private theorem slot_asize (a : Arg) : minipcGetAsize a.slot = a.asize :=
  getAsize_encode _ _ a.asize_lt

private theorem Arg.bytes_le (a : Arg) : a.bytes.length ≤ 4 * a.words := by
  rw [Arg.words, getAnum_eq]
  omega

/-! ### One argument -/

/-- Only a string may take another number of words than declared. -/
theorem words_eq_slotWords (a : Arg) (scalar : a.atype ≠ .string) : a.words = a.slotWords := by
  cases a with
  | int | int64 | double => rfl
  | string => exact absurd rfl scalar
  | struct asize bytes => simp [Arg.words, Arg.slotWords, Arg.bytes, Arg.asize, bytes.property]

private theorem marshalString_eq (s : CString) (ap : List VaArg) (narg : Nat) (out : ArgBytes)
    (inside : narg < minipcMaxArguments) :
    marshalString s.chars ap narg out =
      if 2 ^ 31 ≤ s.chars.length + 4 then .stop .undefined
      else if minipcMaxArguments ≤ narg + minipcGetAnum (s.chars.length + 1) then .stop .eproto
      else .next ap (narg + minipcGetAnum (s.chars.length + 1))
        (store out (4 * narg) (s.chars ++ [0])) := by
  have limit : minipcMaxArguments = 256 := rfl
  simp only [marshalString]
  by_cases long : 2 ^ 31 ≤ s.chars.length + 4
  · -- the overflowed count passes the check
    have count := anumInt_long s.chars.length long s.size
    rw [if_pos long, if_neg (by omega), if_pos (by omega)]
  · have count := anumInt_short s.chars.length (by omega)
    have words := getAnum_eq (s.chars.length + 1)
    rw [if_neg long, count]
    by_cases full : minipcMaxArguments ≤ narg + minipcGetAnum (s.chars.length + 1)
    · rw [if_pos (by omega), if_pos full]
    · rw [if_neg (by omega), if_neg (by omega), if_neg full, Int.toNat_natCast]

/-- What a turn of the loop does with a declared argument. -/
theorem marshalTurn_slot (a : Arg) (ap : List VaArg) (narg : Nat) (out : ArgBytes) :
    marshalTurn a.slot (a.value :: ap) narg out =
      if minipcMaxArguments ≤ narg + a.slotWords then .stop .eproto
      else if a.Long then .stop .undefined
      else if minipcMaxArguments ≤ narg + a.words then .stop .eproto
      else .next ap (narg + a.words) (store out (4 * narg) a.bytes) := by
  have announced : minipcGetAnum a.asize = a.slotWords := rfl
  simp only [marshalTurn, slot_atype, slot_asize, announced]
  -- the announced size is checked before the type
  by_cases full : minipcMaxArguments ≤ narg + a.slotWords
  · rw [if_pos full, if_pos full]
  · rw [if_neg full, if_neg full]
    cases a with
    | int v =>
      rw [words_eq_slotWords _ (by simp [Arg.atype]), if_neg full]
      simp [Arg.atype, Arg.value, Arg.Long, Arg.bytes, Arg.slotWords, Arg.asize, getAnum_eq]
    | int64 v | double v =>
      rw [words_eq_slotWords _ (by simp [Arg.atype]), if_neg full]
      simp [Arg.atype, Arg.value, Arg.Long, Arg.bytes]
    -- the size of a string is the one of its characters, not the announced one
    | string asize s =>
      have width : (Arg.string asize s).words = minipcGetAnum (s.chars.length + 1) := by
        simp [Arg.words, Arg.bytes]
      rw [width]
      simp only [Arg.atype, Arg.value]
      exact marshalString_eq s ap narg out (by omega)
    | struct asize bytes =>
      rw [words_eq_slotWords _ (by simp [Arg.atype]), if_neg full]
      simp [Arg.atype, Arg.value, Arg.Long, Arg.bytes, Arg.asize, ← bytes.property]

private theorem readArg_slot (a : Arg) (rest : Mem) :
    readArg (a.bytes ++ rest) a.slot = some a.value := by
  simp only [readArg, slot_atype, slot_asize]
  cases a with
  | int v => simp [Arg.atype, Arg.bytes, Arg.value, loadBits_storeBits]
  | int64 v | double v => simp [Arg.atype, Arg.bytes, Arg.value, loadBits_storeBits]
  | string asize s =>
    simp only [Arg.atype, Arg.bytes, Arg.value, List.append_assoc, List.singleton_append]
    rw [cstr_terminate _ _ s.noNul]
  | struct asize bytes => simp [Arg.atype, Arg.bytes, Arg.value, Arg.asize, ← bytes.property]

/-- The walk of the server passes exactly the words of the value. -/
theorem getNextArg_slot (a : Arg) (pad rest : Mem)
    (aligned : a.bytes.length + pad.length = 4 * a.words) :
    minipcGetNextArg (a.bytes ++ pad ++ rest) a.slot = rest := by
  have width : argWords (a.bytes ++ pad ++ rest) a.slot = a.words := by
    rw [argWords, slot_atype, slot_asize]
    by_cases scalar : a.atype ≠ .string
    · rw [if_pos (by simpa using scalar), words_eq_slotWords a scalar, Arg.slotWords]
    · rw [if_neg (by simpa using scalar)]
      cases a with
      | string asize s =>
        rw [Arg.words, Arg.bytes, List.append_assoc, List.append_assoc, List.singleton_append,
          strlen, cstr_terminate _ _ s.noNul, List.length_append, List.length_singleton]
      | int | int64 | double | struct => exact absurd MinipcAt.noConfusion scalar
  rw [minipcGetNextArg, width, ← aligned, ← List.length_append, List.drop_left]

/-! ### All arguments -/

private theorem marshal_cons (a : Arg) (args : List Arg) (narg : Nat) (out : ArgBytes) :
    marshal (declared (a :: args)) ((a :: args).map Arg.value) narg out =
      if minipcMaxArguments ≤ narg + a.slotWords then .eproto
      else if a.Long then .undefined
      else if minipcMaxArguments ≤ narg + a.words then .eproto
      else marshal (declared args) (args.map Arg.value) (narg + a.words)
        (store out (4 * narg) a.bytes) := by
  rw [declared, List.map_cons, List.map_cons, List.cons_append, marshal, marshalTurn_slot]
  by_cases announced : minipcMaxArguments ≤ narg + a.slotWords
  · simp only [if_pos announced]
  · by_cases long : a.Long
    · simp only [if_neg announced, if_pos long]
    · by_cases full : minipcMaxArguments ≤ narg + a.words
      · simp only [if_neg announced, if_neg long, if_pos full]
      · simp only [if_neg announced, if_neg long, if_neg full, declared]

private theorem marshal_nil (narg : Nat) (out : ArgBytes) :
    marshal (declared []) [] narg out =
      if minipcMaxArguments ≤ narg then .eproto else .packed narg out := by
  have terminator : minipcGetAnum (minipcGetAsize minipcArgEnd) = 0 := by decide
  have none : minipcGetAtype minipcArgEnd = some .none := by decide
  simp only [declared, List.map_nil, List.nil_append, marshal, marshalTurn, terminator, none,
    Nat.add_zero]
  by_cases full : minipcMaxArguments ≤ narg
  · simp only [if_pos full]
  · simp only [if_neg full]

private theorem wordsOf_cons (a : Arg) (args : List Arg) :
    wordsOf (a :: args) = a.words + wordsOf args := by
  rw [wordsOf, List.map_cons, List.sum_cons, wordsOf]

/-- Arguments that are accepted fit the packet. -/
theorem Accepts.total {narg : Nat} {args : List Arg} (accepts : Accepts narg args) :
    narg + wordsOf args < minipcMaxArguments := by
  induction args generalizing narg with
  | nil => exact accepts
  | cons a args ih =>
    have total := ih accepts.2.2
    rw [wordsOf_cons]
    omega

/-- A string whose word count overflows is far too long for the packet. -/
theorem Long.full {a : Arg} (long : a.Long) : minipcMaxArguments ≤ a.words := by
  have limit : minipcMaxArguments = 256 := rfl
  cases a with
  | string asize s =>
    have bound : 2 ^ 31 ≤ s.chars.length + 4 := long
    simp only [Arg.words, Arg.bytes, List.length_append, List.length_singleton, getAnum_eq]
    omega
  | int | int64 | double | struct => exact long.elim

/-- The words below the current one are final; the ones above hold what was passed, and the
server walks over exactly these. -/
theorem marshal_accepted {narg : Nat} {args : List Arg} (out : ArgBytes)
    (accepts : Accepts narg args) :
    ∃ out', marshal (declared args) (args.map Arg.value) narg out =
        .packed (narg + wordsOf args) out' ∧
      (∀ a < 4 * narg, out' a = out a) ∧
      ∀ rest, readArgs (args.map Arg.slot) (window out' (4 * narg) (4 * wordsOf args) ++ rest) =
        (args.map fun a => some a.value, rest) := by
  induction args generalizing narg out with
  | nil =>
    refine ⟨out, ?_, fun _ _ => rfl, fun rest => rfl⟩
    have room : narg < minipcMaxArguments := accepts
    rw [List.map_nil, marshal_nil, if_neg (by omega)]
    rfl
  | cons a args ih =>
    obtain ⟨announced, fits, others⟩ := accepts
    obtain ⟨out', packed, frame, walk⟩ := ih (store out (4 * narg) a.bytes) others
    have short : ¬a.Long := fun long => by have := Long.full long; omega
    have size := a.bytes_le
    refine ⟨out', ?_, ?_, ?_⟩
    · rw [marshal_cons, if_neg (by omega), if_neg short, if_neg (by omega), packed, wordsOf_cons,
        Nat.add_assoc]
    · intro i below
      rw [frame i (by omega), store_below _ _ _ _ below]
    · intro rest
      -- the bytes of this argument, the padding of its last word, the other arguments
      have cut : 4 * wordsOf (a :: args) =
          a.bytes.length + (4 * a.words - a.bytes.length) + 4 * wordsOf args := by
        rw [wordsOf_cons]
        omega
      have stored : window out' (4 * narg) a.bytes.length = a.bytes := by
        rw [window_congr (store out (4 * narg) a.bytes) out' _ _ fun i below =>
          frame i (by omega), window_store]
      have next : 4 * narg + (a.bytes.length + (4 * a.words - a.bytes.length)) =
          4 * (narg + a.words) := by omega
      rw [cut, window_append, window_append, stored, next, List.map_cons, readArgs,
        List.append_assoc, getNextArg_slot, walk, List.append_assoc, readArg_slot]
      · rfl
      · rw [window, List.length_map, List.length_range]
        omega

private theorem marshal_overruns {narg : Nat} {args : List Arg} (out : ArgBytes)
    (overruns : Overruns narg args) :
    marshal (declared args) (args.map Arg.value) narg out = .undefined := by
  induction args generalizing narg out with
  | nil => exact overruns.elim
  | cons a args ih =>
    obtain ⟨announced, rest⟩ := overruns
    rw [marshal_cons, if_neg (by omega)]
    rcases rest with long | ⟨fits, later⟩
    · rw [if_pos long]
    · have short : ¬a.Long := fun long => by have := Long.full long; omega
      rw [if_neg short, if_neg (by omega), ih _ later]

private theorem marshal_refused {narg : Nat} {args : List Arg} (out : ArgBytes)
    (refused : ¬Accepts narg args) (defined : ¬Overruns narg args) :
    marshal (declared args) (args.map Arg.value) narg out = .eproto := by
  induction args generalizing narg out with
  | nil =>
    have full : ¬narg < minipcMaxArguments := refused
    rw [List.map_nil, marshal_nil, if_pos (by omega)]
  | cons a args ih =>
    rw [marshal_cons]
    by_cases announced : narg + a.slotWords < minipcMaxArguments
    · have short : ¬a.Long := fun long => defined ⟨announced, .inl long⟩
      rw [if_neg (by omega), if_neg short]
      by_cases fits : narg + a.words < minipcMaxArguments
      · rw [if_neg (by omega)]
        exact ih _ (fun accepts => refused ⟨announced, fits, accepts⟩)
          fun later => defined ⟨announced, .inr ⟨fits, later⟩⟩
      · rw [if_pos (by omega)]
    · rw [if_pos (by omega)]

/-- The arguments for which the call does what it should. -/
theorem roundTrips_iff (args : List Arg) (out : ArgBytes) :
    RoundTrips args out ↔
      Accepts 0 args ∨ minipcMaxArguments < wordsOf args ∧ ¬Overruns 0 args := by
  constructor
  · rintro (⟨eproto, large⟩ | ⟨narg, out', packed, _⟩)
    · refine .inr ⟨large, fun overruns => ?_⟩
      rw [marshal_overruns out overruns] at eproto
      cases eproto
    · by_contra neither
      push Not at neither
      -- refused or out of bounds: neither packs anything
      by_cases overruns : Overruns 0 args
      · rw [marshal_overruns out overruns] at packed
        cases packed
      · rw [marshal_refused out neither.1 overruns] at packed
        cases packed
  · rintro (accepts | ⟨large, defined⟩)
    · obtain ⟨out', packed, _, walk⟩ := marshal_accepted out accepts
      rw [Nat.zero_add] at packed
      exact .inr ⟨wordsOf args, out', packed, walk⟩
    · refine .inl ⟨marshal_refused out (fun accepts => ?_) defined, large⟩
      have total := accepts.total
      omega

end WrSwitch.MiniRpc
