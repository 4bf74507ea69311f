import WrSwitch.MiniRpc.Socket

/-!
# Sizes of replies

The server sends as many bytes as the type of the reply says, the client compares them with
the size that its descriptor declares: a reply arrives exactly if it is not shorter than that,
nor than an error reply.
-/
namespace WrSwitch.MiniRpc

open Machine

variable {ι φ σ : Type}

/-! ### What is asked of a call -/

/-- A type of return values, of a size that fits into a reply. -/
structure ReturnType (retval : Word) : Prop where
  atype : minipcGetAtype retval ∈ [some .int, some .int64, some .double, some .string, some .struct]
  fits : minipcGetAsize retval ≤ minipcMaxReply

/-- A value that fits: for a string, its bytes up to the zero. -/
def ValueFits (retval : Word) (out : Outcome σ) : Prop :=
  0 ≤ out.ret → minipcGetAtype retval = some .string → strlen out.val < minipcMaxReply

/-- The call returns what the handler left behind. -/
def Delivers (retval : Word) (out : Outcome σ) (result : CallReturn) : Prop :=
  if out.ret < 0 then result = .eremoteio out.errno
  else ∃ ret, result = .ok ret ∧
    if minipcGetAtype retval = some .string then 0 ∈ ret ∧ cstr ret = cstr out.val
    else ret = replyBytes (memAt out.val) (minipcGetAsize retval)

/-- The string with its zero, up to a whole word. -/
def stringSize (val : Mem) : Nat := (strlen val + 1 + 3) / 4 * 4

/-- A string takes at least as many bytes as declared, any other value at least four. -/
def LongEnough (retval : Word) (out : Outcome σ) : Prop :=
  0 ≤ out.ret →
    if minipcGetAtype retval = some .string then minipcGetAsize retval ≤ stringSize out.val
    else 4 ≤ minipcGetAsize retval

instance (retval : Word) (out : Outcome σ) : Decidable (LongEnough retval out) :=
  inferInstanceAs (Decidable (_ → _))

/-- `recv` of a packet and the rest of `minipc_call`. -/
def minipcReceivePacket (retval : Word) (packet stack : Mem) : CallReturn :=
  let bytes := packet.take repPacketSize
  minipcReceived retval bytes.length (received bytes stack)

/-! ### A packet that arrives -/

private theorem replyBytes_prefix (val : Nat → Byte) (len : Nat) (rest : Mem) :
    replyBytes (memAt (replyBytes val len ++ rest)) len = replyBytes val len := by
  apply List.ext_getElem
  · rw [replyBytes_length, replyBytes_length]
  · intro i inside inside'
    rw [replyBytes_getElem, memAt, List.getD_eq_getElem?_getD,
      List.getElem?_append_left inside', List.getElem?_eq_getElem inside', Option.getD_some]

/-- The checks of `minipc_call` on a reply that fits. -/
theorem receivePacket_eq (retval : Word) (reply : MpcRepPacket) (stack : Mem)
    (fits : minipcGetAsize reply.type ≤ minipcMaxReply) :
    minipcReceivePacket retval (replyPacket reply) stack =
      let bytes := replyBytes (memAt reply.val) (minipcGetAsize reply.type)
      if minipcGetAsize reply.type < 4 then .eproto
      else if minipcGetAtype reply.type = some .error then .eremoteio (loadBits 32 bytes)
      else if reply.type >>> 16 ≠ retval >>> 16 then .eproto
      else if minipcGetAsize reply.type < minipcGetAsize retval then .eproto
      else .ok bytes := by
  -- a packet is the type word and the bytes it announces
  have width : (storeBits reply.type).length = 4 := storeBits_length _
  have length : (replyPacket reply).length = 4 + minipcGetAsize reply.type := by
    rw [replyPacket, List.length_append, width, replyBytes_length]
  have whole : (replyPacket reply).take repPacketSize = replyPacket reply := by
    apply List.take_of_length_le
    rw [length, repPacketSize]
    omega
  simp only [minipcReceivePacket, whole, minipcReceived, length, received]
  generalize stack.drop (4 + minipcGetAsize reply.type) = rest
  rw [replyPacket, List.append_assoc, loadBits_storeBits (by decide), ← width, List.drop_left,
    width, replyBytes_prefix]
  -- a short reply is refused; another one is compared with the declared type
  by_cases short : minipcGetAsize reply.type < 4
  · rw [if_pos short, if_pos (by omega)]
  · have inside : 32 / 8 ≤ (replyBytes (memAt reply.val) (minipcGetAsize reply.type)).length := by
      rw [replyBytes_length]
      omega
    rw [if_neg short, if_neg (by omega), loadBits_append _ _ inside]
    simp only [Nat.add_comm 4, Nat.add_lt_add_iff_right]

/-! ### Replies of the server -/

private theorem atype_code {word : Word} {atype : MinipcAt}
    (known : minipcGetAtype word = some atype) :
    (word >>> 16).toNat = atype.code := by
  have found := List.find?_some known
  simpa using (of_decide_eq_true found).symm

/-- The type of a string reply differs from the declared one in its size only. -/
theorem string_atype {retval : Word} (string : minipcGetAtype retval = some .string) {asize : Nat}
    (small : asize < 2 ^ 16) : minipcArgEncode .string asize >>> 16 = retval >>> 16 := by
  apply BitVec.eq_of_toNat_eq
  rw [atype_code (getAtype_encode .string asize small), atype_code string]

private theorem errorReply_arrives (retval errno : Word) (val stack : Mem) :
    minipcReceivePacket retval (replyPacket (errorReply errno val)) stack = .eremoteio errno := by
  have size : minipcGetAsize (minipcArgEncode .error 4) = 4 := getAsize_encode .error 4 (by decide)
  have stored : replyBytes (memAt (storeBits errno ++ val.drop 4)) 4 = storeBits errno := by
    apply List.ext_getElem
    · rw [replyBytes_length, storeBits_length]
    · intro i inside inside'
      rw [replyBytes_getElem, memAt, List.getD_eq_getElem?_getD,
        List.getElem?_append_left inside', List.getElem?_eq_getElem inside', Option.getD_some]
  rw [receivePacket_eq _ _ _ (by rw [errorReply, size]; decide)]
  simp only [errorReply, size, stored]
  rw [if_neg (by decide), if_pos (getAtype_encode .error 4 (by decide)),
    ← List.append_nil (storeBits errno), loadBits_storeBits (by decide)]

private theorem replyBytes_cons (b : Byte) (val : Mem) (len : Nat) :
    replyBytes (memAt (b :: val)) (len + 1) = b :: replyBytes (memAt val) len := by
  simp [replyBytes, List.range_succ_eq_map, memAt, Function.comp_def]

/-- Bytes beyond the zero do not matter. -/
theorem cstr_replyBytes (val : Mem) (len : Nat) (long : strlen val < len) :
    0 ∈ replyBytes (memAt val) len ∧ cstr (replyBytes (memAt val) len) = cstr val := by
  induction val generalizing len with
  | nil =>
    -- what is not known of the memory is read as zero
    obtain ⟨k, rfl⟩ := Nat.exists_eq_add_one_of_ne_zero (Nat.ne_zero_of_lt long)
    have zero : replyBytes (memAt []) (k + 1) = 0 :: (replyBytes (memAt []) (k + 1)).tail := by
      simp [replyBytes, List.range_succ_eq_map, memAt]
    rw [zero]
    simp [cstr]
  | cons b val ih =>
    obtain ⟨k, rfl⟩ := Nat.exists_eq_add_one_of_ne_zero (Nat.ne_zero_of_lt long)
    rw [replyBytes_cons]
    by_cases final : b = 0#8
    · simp [cstr, final]
    · have shorter : strlen val < k := by
        simpa [strlen, cstr, List.takeWhile_cons, final] using long
      obtain ⟨member, same⟩ := ih k shorter
      have cons : ∀ mem : Mem, cstr (b :: mem) = b :: cstr mem := by
        intro mem
        simp [cstr, final]
      refine ⟨List.mem_cons_of_mem _ member, ?_⟩
      rw [cons, cons, same]

private theorem callReply_arrives_iff {retval : Word} (declared : ReturnType retval)
    (out : Outcome σ) (fits : ValueFits retval out) (stack : Mem) :
    Delivers retval out (minipcReceivePacket retval (replyPacket (callReply retval out)) stack) ↔
      LongEnough retval out := by
  -- an error reply always arrives
  by_cases failed : out.ret < 0
  · have error : callReply retval out = errorReply out.errno out.val := by
      rw [callReply, if_pos failed]
    rw [Delivers, if_pos failed, error, errorReply_arrives]
    exact iff_of_true rfl fun ok => absurd ok (not_le.mpr failed)
  have ok : 0 ≤ out.ret := not_lt.mp failed
  rw [Delivers, if_neg failed, LongEnough]
  by_cases string : minipcGetAtype retval = some .string
  · -- the type of the reply has the size of the string
    have short : strlen out.val < minipcMaxReply := fits ok string
    have bound : stringSize out.val ≤ minipcMaxReply := by
      simp only [stringSize, minipcMaxReply] at short ⊢
      omega
    have small : stringSize out.val < 2 ^ 16 := by
      simp only [minipcMaxReply] at bound
      omega
    have reply : callReply retval out = ⟨minipcArgEncode .string (stringSize out.val), out.val⟩ := by
      rw [callReply, if_neg failed, if_pos string, stringSize]
    have atype := getAtype_encode .string (stringSize out.val) small
    have asize := getAsize_encode .string (stringSize out.val) small
    have four : ¬stringSize out.val < 4 := by
      rw [stringSize]
      omega
    rw [reply, receivePacket_eq _ _ _ (by rwa [asize])]
    simp only [asize, atype, string_atype string small, four, string, if_false, if_true, ok,
      forall_const, ne_eq, not_true_eq_false, reduceCtorEq, Option.some.injEq]
    by_cases long : minipcGetAsize retval ≤ stringSize out.val
    · have terminated := cstr_replyBytes out.val (stringSize out.val)
        (by rw [stringSize]; omega)
      rw [if_neg (not_lt.mpr long)]
      exact iff_of_true ⟨_, rfl, terminated⟩ long
    · rw [if_pos (not_le.mp long)]
      exact iff_of_false (fun ⟨_, impossible, _⟩ => by cases impossible) long
  · have reply : callReply retval out = ⟨retval, out.val⟩ := by
      rw [callReply, if_neg failed, if_neg string]
    have noError : minipcGetAtype retval ≠ some .error := by
      intro error
      have listed := declared.atype
      rw [error] at listed
      exact absurd listed (by decide)
    rw [reply, receivePacket_eq _ _ _ declared.fits]
    simp only [noError, string, if_false, ok, forall_const, ne_eq, not_true_eq_false,
      lt_self_iff_false]
    by_cases long : 4 ≤ minipcGetAsize retval
    · rw [if_neg (not_lt.mpr long)]
      exact iff_of_true ⟨_, rfl, rfl⟩ long
    · rw [if_pos (not_le.mp long)]
      exact iff_of_false (fun ⟨_, impossible, _⟩ => by cases impossible) long

/-- A call of an exported procedure returns what its handler left behind exactly if the value
is not shorter than a string is declared to be, nor than an error number. -/
theorem reply_delivered_iff (pds : ι → MinipcPd φ)
    (call : MinipcPd φ → Mem → Mem → σ → Outcome σ) (link : List (MpcFlist ι))
    (pIn val stack : Mem) (s : σ) (pd : ι) (exported : mpcLookup pds link pIn = some pd)
    (declared : ReturnType (pds pd).retval)
    (fits : ValueFits (pds pd).retval (call (pds pd) (pIn.drop minipcMaxName) val s)) :
    Delivers (pds pd).retval (call (pds pd) (pIn.drop minipcMaxName) val s)
        (minipcReceivePacket (pds pd).retval
          (replyPacket (mpcHandleClient pds call link pIn val s).reply) stack) ↔
      LongEnough (pds pd).retval (call (pds pd) (pIn.drop minipcMaxName) val s) := by
  simp only [mpcHandleClient, exported]
  exact callReply_arrives_iff declared _ fits stack

/-- A procedure without arguments that returns `val` whenever it is called. -/
def constantPd (retval : Word) : MinipcPd Unit where
  f := ()
  name := .ofString "constant" (by decide)
  retval := retval
  args := [minipcArgEnd]

def returnVal (val : Mem) (_ : MinipcPd Unit) (_ _ : Mem) (s : Unit) : Outcome Unit :=
  ⟨0, 0, val, s⟩

/-- A call of the procedure over a connection with nothing under way. -/
def constantCall (retval : Word) (val : Mem) : CallReturn :=
  minipcReceivePacket retval (replyPacket (mpcHandleClient (fun _ : Unit => constantPd retval)
    (returnVal val) [⟨0, ()⟩] (constantPd retval).name.bytes [] ()).reply) []

/-- With pointers of four bytes, the declared size of a string is never too long. -/
theorem reply_delivered_string :
    Delivers (minipcArgEncode .string 4) (returnVal [97, 0] (constantPd 0) [] [] ())
      (constantCall (minipcArgEncode .string 4) [97, 0]) :=
  (reply_delivered_iff (fun _ : Unit => constantPd (minipcArgEncode .string 4))
    (returnVal [97, 0]) [⟨0, ()⟩] _ [] [] () () (by decide) ⟨by decide, by decide⟩
    (fun _ _ => by decide)).mpr (by decide)

/-- With pointers of eight bytes a string of two characters is rejected, and so is a structure
of two bytes in any case. -/
theorem reply_rejected :
    constantCall (minipcArgEncode .string 8) [97, 98, 0] = .eproto ∧
      constantCall (minipcArgEncode .struct 2) [1, 2] = .eproto ∧
      ¬Delivers (minipcArgEncode .string 8) (returnVal [97, 98, 0] (constantPd 0) [] [] ())
        (constantCall (minipcArgEncode .string 8) [97, 98, 0]) := by
  have rejected : constantCall (minipcArgEncode .string 8) [97, 98, 0] = .eproto := by decide
  refine ⟨rejected, by decide, ?_⟩
  rw [rejected, Delivers, if_neg (by decide)]
  rintro ⟨ret, impossible, -⟩
  cases impossible

end WrSwitch.MiniRpc
