import Mathlib.Data.BitVec
import Mathlib.Tactic.SplitIfs
import WrSwitch.Machine.Writes

/-!
# Port masks for SNMP

`convert_portmask_to_snmp_bitmask` of `libwr/util.c`. The RTU has the lowest port in the
lowest bit of a word, SNMP has it in the most significant bit of the first byte.
-/
namespace WrSwitch.Libwr

open WrSwitch.Machine

/-! ### The conversion -/

/-- The loop's variables, with the bytes it has stored into the caller's buffer. -/
structure SnmpBitmask where
  stored : Writes Nat (BitVec 8)
  bitmask : Nat
  portMask : BitVec 32

def SnmpBitmask.load (buffer : Nat → BitVec 8) (s : SnmpBitmask) : BitVec 8 :=
  s.stored.onto buffer s.bitmask

def SnmpBitmask.store (s : SnmpBitmask) (b : BitVec 8) : SnmpBitmask :=
  { s with stored := Function.update s.stored s.bitmask (some b) }

/-- One turn of the loop, for port `i`. -/
def convertPort (buffer : Nat → BitVec 8) (s : SnmpBitmask) (i : Nat) : SnmpBitmask :=
  let s := s.store (s.load buffer ||| (s.portMask &&& 1#32).setWidth 8)
  let s := { s with portMask := s.portMask >>> 1 }
  -- the jump to the next char clears it, also behind the last one
  let s := if i % 8 = 7 then ({ s with bitmask := s.bitmask + 1 } : SnmpBitmask).store 0 else s
  s.store (s.load buffer <<< 1)

/-- What is stored into `buffer`, and the length reported for it. -/
def convertPortmaskToSnmpBitmask (nports : Nat) (portMask : BitVec 32)
    (buffer : Nat → BitVec 8) : Writes Nat (BitVec 8) × Nat :=
  let nports := 8 * ((nports + 7) / 8)
  let s := (List.range nports).foldl (convertPort buffer) ⟨fun _ => none, 0, portMask⟩
  (s.stored, nports / 8)

/-! ### What the loop keeps -/

/-- The byte for ports `8 * k` to `8 * k + 7`. -/
def snmpByte (portMask : BitVec 32) (k : Nat) : BitVec 8 :=
  ((portMask >>> (8 * k)).setWidth 8).reverse

private theorem snmpByte_getLsbD (portMask : BitVec 32) (k b : Nat) (inside : b < 8) :
    (snmpByte portMask k).getLsbD b = portMask.getLsbD (8 * k + (7 - b)) := by
  have mirrored : 8 - 1 - b < 8 := by omega
  rw [snmpByte, BitVec.getLsbD_reverse, BitVec.getMsbD, BitVec.getLsbD_setWidth,
    BitVec.getLsbD_ushiftRight]
  simp only [inside, mirrored, decide_true, Bool.true_and, Nat.add_one_sub_one]

private theorem snmpByte_bit (portMask : BitVec 32) (i : Nat) :
    (snmpByte portMask (i / 8)).getLsbD (7 - i % 8) = portMask.getLsbD i := by
  rw [snmpByte_getLsbD portMask _ _ (by omega)]
  congr 1
  omega

/-- The byte under construction after `r` of its ports. -/
def partByte (portMask : BitVec 32) (k r : Nat) : BitVec 8 :=
  snmpByte portMask k >>> (8 - r) <<< 1

private theorem partByte_zero (portMask : BitVec 32) (k : Nat) : partByte portMask k 0 = 0#8 := by
  rw [partByte, BitVec.ushiftRight_eq_zero (by decide), BitVec.zero_shiftLeft]

/-- The next port goes to the lowest bit. -/
theorem partByte_or (portMask : BitVec 32) (k r : Nat) (inside : r < 8) :
    partByte portMask k r ||| (portMask >>> (8 * k + r) &&& 1#32).setWidth 8 =
      snmpByte portMask k >>> (7 - r) := by
  apply BitVec.eq_of_getLsbD_eq
  intro b bound
  cases b with
  | zero =>
    have low : (snmpByte portMask k).getLsbD (7 - r) = portMask.getLsbD (8 * k + r) := by
      rw [snmpByte_getLsbD portMask k _ (by omega)]
      congr 1
      omega
    simp [partByte, low]
  | succ b =>
    have shifted : 8 - r + b = 7 - r + (b + 1) := by omega
    simp [partByte, bound, shifted]

/-- The variables after `i` turns on a buffer of zeros. -/
def convertedPorts (portMask : BitVec 32) (i : Nat) : SnmpBitmask where
  stored k :=
    if k < i / 8 then some (snmpByte portMask k)
    else if k = i / 8 ∧ 0 < i then some (partByte portMask k (i % 8))
    else none
  bitmask := i / 8
  portMask := portMask >>> i

private theorem load_convertedPorts (portMask : BitVec 32) (i : Nat) :
    (convertedPorts portMask i).load (fun _ => 0) = partByte portMask (i / 8) (i % 8) := by
  by_cases first : i = 0
  · subst first
    simp [SnmpBitmask.load, convertedPorts, Writes.onto_apply, partByte_zero]
  · simp [SnmpBitmask.load, convertedPorts, Writes.onto_apply, Nat.pos_of_ne_zero first]

private theorem convertPort_convertedPorts (portMask : BitVec 32) (i : Nat) :
    convertPort (fun _ => 0) (convertedPorts portMask i) i = convertedPorts portMask (i + 1) := by
  have position : 8 * (i / 8) + i % 8 = i := Nat.div_add_mod i 8
  have port := partByte_or portMask (i / 8) (i % 8) (Nat.mod_lt i (by decide))
  rw [position] at port
  -- the byte under construction takes the bit of this port
  have byte : (convertedPorts portMask i).load (fun _ => 0) |||
      ((convertedPorts portMask i).portMask &&& 1#32).setWidth 8 =
        snmpByte portMask (i / 8) >>> (7 - i % 8) := by
    rw [load_convertedPorts]
    exact port
  unfold convertPort
  rw [byte]
  -- the eighth port of a byte moves on to the next byte
  by_cases last : i % 8 = 7
  · have next : (i + 1) / 8 = i / 8 + 1 := by omega
    have start : (i + 1) % 8 = 0 := by omega
    simp only [last, reduceIte, SnmpBitmask.store, SnmpBitmask.load, convertedPorts, next, start,
      SnmpBitmask.mk.injEq, BitVec.shiftRight_add, and_self, and_true, partByte_zero]
    funext k
    simp only [Function.update_apply, Writes.onto_apply]
    rcases Nat.lt_trichotomy k (i / 8) with before | rfl | after
    · simp [before, Nat.lt_succ_of_lt before, before.ne, (Nat.lt_succ_of_lt before).ne]
    · simp
    · have beyond : ¬k < i / 8 + 1 := by omega
      simp only [beyond, after.ne', after.not_gt, if_false, false_and, Nat.succ_pos, and_true]
      by_cases behind : k = i / 8 + 1 <;> simp [behind]
  · have next : (i + 1) / 8 = i / 8 := by omega
    have more : (i + 1) % 8 = i % 8 + 1 := by omega
    simp only [last, if_false, SnmpBitmask.store, SnmpBitmask.load, convertedPorts, next, more,
      SnmpBitmask.mk.injEq, BitVec.shiftRight_add, and_self, and_true]
    funext k
    simp only [Function.update_apply, Writes.onto_apply]
    rcases Nat.lt_trichotomy k (i / 8) with before | rfl | after
    · simp [before, before.ne]
    · simp [partByte, Nat.add_comm (i % 8) 1, Nat.sub_add_eq]
    · simp [after.ne', after.not_gt]

/-- The loop, for any number of whole bytes. -/
theorem convertPorts_eq (portMask : BitVec 32) (count : Nat) :
    (List.range count).foldl (convertPort fun _ => 0) ⟨fun _ => none, 0, portMask⟩ =
      convertedPorts portMask count := by
  induction count with
  | zero => simp [convertedPorts]
  | succ count ih =>
    rw [List.range_succ, List.foldl_append, ih]
    exact convertPort_convertedPorts portMask count

/-! ### The result -/

/-- The bytes that `nports` ports take. -/
def snmpBytes (nports : Nat) : Nat := (nports + 7) / 8

private theorem stored_eq (nports : Nat) (portMask : BitVec 32) (k : Nat) :
    (convertPortmaskToSnmpBitmask nports portMask fun _ => 0).1 k =
      if k < snmpBytes nports then some (snmpByte portMask k)
      else if k = snmpBytes nports ∧ 0 < nports then some 0 else none := by
  have whole : 8 * ((nports + 7) / 8) / 8 = snmpBytes nports :=
    Nat.mul_div_cancel_left _ (by decide)
  have some_port : 0 < 8 * ((nports + 7) / 8) ↔ 0 < nports := by omega
  simp only [convertPortmaskToSnmpBitmask, convertPorts_eq, convertedPorts, whole, some_port,
    Nat.mul_mod_right, partByte_zero]
  rfl

/-- Bit `i` of the buffer is bit `i` of the mask for a port, and clear for everything else. -/
def ShowsPorts (nports : Nat) (portMask : BitVec 32) (stored : Writes Nat (BitVec 8)) : Prop :=
  ∀ i, (stored.onto (fun _ => 0) (i / 8)).getLsbD (7 - i % 8) =
    (decide (i < nports) && portMask.getLsbD i)

/-- The port list of `nports` ports: its bytes and nothing else are stored. -/
structure SnmpPortList (nports : Nat) (portMask : BitVec 32)
    (result : Writes Nat (BitVec 8) × Nat) : Prop where
  stored : ∀ k, (result.1 k).isSome ↔ k < snmpBytes nports
  shown : ShowsPorts nports portMask result.1
  length : result.2 = snmpBytes nports

/-- The mask has no bits that share the last byte with the ports. -/
def NoStrayPorts (nports : Nat) (portMask : BitVec 32) : Prop :=
  ∀ i, nports ≤ i → i < 8 * snmpBytes nports → portMask.getLsbD i = false

private theorem shown_bit (nports : Nat) (portMask : BitVec 32) (i : Nat) :
    ((convertPortmaskToSnmpBitmask nports portMask fun _ => 0).1.onto (fun _ => 0)
        (i / 8)).getLsbD (7 - i % 8) =
      (decide (i < 8 * snmpBytes nports) && portMask.getLsbD i) := by
  rw [Writes.onto_apply, stored_eq]
  by_cases inside : i / 8 < snmpBytes nports
  · have covered : i < 8 * snmpBytes nports := by omega
    simp [inside, covered, snmpByte_bit]
  · have outside : ¬i < 8 * snmpBytes nports := by omega
    simp only [inside, if_false, outside, decide_false, Bool.false_and]
    split_ifs <;> simp

private theorem showsPorts_iff (nports : Nat) (portMask : BitVec 32) :
    ShowsPorts nports portMask (convertPortmaskToSnmpBitmask nports portMask fun _ => 0).1 ↔
      NoStrayPorts nports portMask := by
  have covered (i : Nat) (port : i < nports) : i < 8 * snmpBytes nports := by
    unfold snmpBytes
    omega
  refine forall_congr' fun i => ?_
  rw [shown_bit]
  by_cases port : i < nports
  · simp [port, covered i port, Nat.not_le.mpr port]
  · simp [port, Nat.not_lt.mp port]

/-- The jump behind the last byte clears one byte more than the list has. -/
theorem stored_isSome (nports : Nat) (portMask : BitVec 32) (k : Nat) :
    ((convertPortmaskToSnmpBitmask nports portMask fun _ => 0).1 k).isSome ↔
      k < snmpBytes nports ∨ k = snmpBytes nports ∧ 0 < nports := by
  rw [stored_eq]
  split_ifs <;> simp_all

/-- Only without ports is the bitmap the one of SNMP; it shows the ports of a mask without stray
bits. -/
theorem snmpPortList_iff (nports : Nat) (portMask : BitVec 32) :
    (SnmpPortList nports portMask
        (convertPortmaskToSnmpBitmask nports portMask fun _ => 0) ↔ nports = 0) ∧
      (ShowsPorts nports portMask
          (convertPortmaskToSnmpBitmask nports portMask fun _ => 0).1 ↔
        NoStrayPorts nports portMask) := by
  refine ⟨⟨fun list => ?_, ?_⟩, showsPorts_iff nports portMask⟩
  · by_contra ports
    have extra : snmpBytes nports < snmpBytes nports := by
      rw [← list.stored, stored_isSome]
      exact Or.inr ⟨rfl, Nat.pos_of_ne_zero ports⟩
    exact extra.false
  · rintro rfl
    refine ⟨fun k => ?_, ?_, rfl⟩
    · rw [stored_isSome]
      simp
    · rw [showsPorts_iff]
      intro i _ inside
      exact absurd inside (Nat.not_lt_zero i)

/-- Eighteen ports of a mask of twenty: the bits of no port are shown, and a fourth byte is
stored for a list of three. -/
theorem eighteen_ports_spill :
    ¬SnmpPortList 18 0xFFFFF#32 (convertPortmaskToSnmpBitmask 18 0xFFFFF#32 fun _ => 0) ∧
      (convertPortmaskToSnmpBitmask 18 0xFFFFF#32 fun _ => 0).1 2 = some 0xF0#8 ∧
      (convertPortmaskToSnmpBitmask 18 0xFFFFF#32 fun _ => 0).1 3 = some 0#8 := by
  have last : (convertPortmaskToSnmpBitmask 18 0xFFFFF#32 fun _ => 0).1 2 = some 0xF0#8 := by
    rw [stored_eq]
    decide
  have extra : (convertPortmaskToSnmpBitmask 18 0xFFFFF#32 fun _ => 0).1 3 = some 0#8 := by
    rw [stored_eq]
    decide
  refine ⟨fun list => ?_, last, extra⟩
  have listed : 3 < snmpBytes 18 := (list.stored 3).mp (by rw [extra]; rfl)
  exact absurd listed (by decide)

end WrSwitch.Libwr
