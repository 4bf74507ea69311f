import WrSwitch.Snmp.FdbTables

/-!
# What the filtering tables show

The entries of the hash table differ in address and filtering database. An index of
`dot1qTpFdbTable` has both; the ones of the other two tables leave the database out.
-/
namespace WrSwitch.Snmp

open Rtu Machine

/-! ### The entries a loader sees -/

def isValid (e : RtuFilteringEntry) : Bool := e.valid ≠ 0

def validEntries (t : Htab) : List RtuFilteringEntry := (sharedTable t).filter isValid

/-- After `k` turns the valid ones of the first `k` entries are in front, and the others have not
been touched. -/
theorem keepValid_turns (tab : List RtuFilteringEntry) (k : Nat) (inside : k ≤ tab.length) :
    let s := (List.range k).foldl keepValid (tab, 0)
    s.1.take s.2 = (tab.take k).filter isValid ∧ s.1.drop k = tab.drop k ∧
      s.1.length = tab.length ∧ s.2 ≤ k := by
  induction k with
  | zero => simp
  | succ k ih =>
    obtain ⟨front, rest, size, behind⟩ := ih (by omega)
    rw [List.range_succ, List.foldl_append, List.foldl_cons, List.foldl_nil]
    generalize (List.range k).foldl keepValid (tab, 0) = s at front rest size behind ⊢
    obtain ⟨moved, empty⟩ := s
    simp only at front rest size behind ⊢
    have inTab : k < tab.length := inside
    have inMoved : k < moved.length := by omega
    -- the entry at hand has not moved yet
    have same : moved.getD k .zero = tab[k] := by
      have head : moved[k] = tab[k] := by
        have first : (moved.drop k)[0]? = (tab.drop k)[0]? := by rw [rest]
        simpa [List.getElem?_drop, inMoved, inTab] using first
      rw [List.getD_eq_getElem?_getD, List.getElem?_eq_getElem inMoved, Option.getD_some, head]
    have later : moved.drop (k + 1) = tab.drop (k + 1) := by
      have := congrArg List.tail rest
      simpa [List.tail_drop] using this
    have taken : tab.take (k + 1) = tab.take k ++ [tab[k]] :=
      List.take_succ_eq_append_getElem inside
    unfold keepValid
    -- a valid entry joins the front, another one is passed over
    by_cases valid : tab[k].valid ≠ 0
    · have kept : isValid tab[k] = true := by simpa [isValid] using valid
      have inFront : empty < (moved.set empty tab[k]).length := by
        rw [List.length_set]
        omega
      simp only [same, if_pos valid]
      refine ⟨?_, ?_, by rw [List.length_set, size], by omega⟩
      · rw [List.take_succ_eq_append_getElem inFront, List.getElem_set_self,
          List.take_set_of_le (Nat.le_refl _), front, taken, List.filter_append]
        simp [kept]
      · rw [List.drop_set_of_lt (by omega), later]
    · have dropped : isValid tab[k] = false := by simpa [isValid] using valid
      simp only [same, if_neg valid]
      refine ⟨?_, later, size, by omega⟩
      rw [front, taken, List.filter_append]
      simp [dropped]

private theorem shmemRtuReadHtab_take (tab : List RtuFilteringEntry) :
    (shmemRtuReadHtab tab).1.take (shmemRtuReadHtab tab).2 = tab.filter isValid := by
  have front := (keepValid_turns tab tab.length (Nat.le_refl _)).1
  rwa [List.take_length] at front

private theorem sortedEntries_perm (cmp : RtuFilteringEntry → RtuFilteringEntry → Int)
    (tab : List RtuFilteringEntry) : (sortedEntries cmp tab).Perm (tab.filter isValid) :=
  (List.mergeSort_perm _ _).trans (List.Perm.of_eq (shmemRtuReadHtab_take tab))

/-- No two entries have the same address in the same filtering database. -/
def UniqueKeys (t : Htab) : Prop :=
  ∀ h < htabEntries, ∀ b < rtuBuckets, ∀ h' < htabEntries, ∀ b' < rtuBuckets,
    t.Valid h b → t.Valid h' b' → (t h b).mac = (t h' b').mac → (t h b).fid = (t h' b').fid →
    h = h' ∧ b = b'

def entryKey (e : RtuFilteringEntry) : Byte × Mac := (e.fid, e.mac)

private theorem product_nodup (m n : Nat) :
    ((List.range m).flatMap fun i => (List.range n).map fun j => (i, j)).Nodup :=
  List.nodup_range.product List.nodup_range

private theorem slots_nodup : slots.Nodup := product_nodup htabEntries rtuBuckets

private theorem validEntries_distinct {t : Htab} (unique : UniqueKeys t) :
    ((validEntries t).map entryKey).Nodup := by
  rw [validEntries, sharedTable, List.filter_map, List.map_map]
  refine List.Nodup.map_on ?_ (slots_nodup.filter _)
  rintro ⟨h, b⟩ first ⟨h', b'⟩ second same
  obtain ⟨inside, valid⟩ := List.mem_filter.mp first
  obtain ⟨inside', valid'⟩ := List.mem_filter.mp second
  have bounds := (mem_slots (h, b)).mp inside
  have bounds' := (mem_slots (h', b')).mp inside'
  have equal := unique h bounds.1 b bounds.2 h' bounds'.1 b' bounds'.2
    (by simpa [isValid, Htab.Valid] using valid) (by simpa [isValid, Htab.Valid] using valid')
    (congrArg Prod.snd same) (congrArg Prod.fst same)
  exact Prod.ext equal.1 equal.2

/-! ### Masks of one port -/

private theorem lowBit_iff (v : Word) : v &&& 1 = 1 ↔ v.toNat % 2 = 1 := by
  rw [← BitVec.toNat_inj, BitVec.toNat_and]
  simp [Nat.and_one_is_mod]

private theorem shiftRight_one (v : Word) : (v >>> 1).toNat = v.toNat / 2 := by
  rw [BitVec.toNat_ushiftRight, Nat.shiftRight_eq_div_pow, Nat.pow_one]

private theorem bitCountLoop_zero (n : Nat) : bitCountLoop n 0 = 0 := by
  cases n <;> rfl

private theorem bitCountLoop_succ (n : Nat) (v : Word) :
    bitCountLoop (n + 1) v = v.toNat % 2 + bitCountLoop n (v >>> 1) := by
  rw [bitCountLoop]
  split
  next more =>
    simp only [lowBit_iff]
    split_ifs <;> omega
  next ended =>
    have zero : v = 0 := by
      rw [BitVec.lt_def] at ended
      exact BitVec.eq_of_toNat_eq (by simpa using ended)
    have shifted : (0 : Word) >>> 1 = 0 := by decide
    rw [zero, shifted, bitCountLoop_zero]
    rfl

private theorem toNat_of_bitCountLoop_zero (n : Nat) (v : Word) (small : v.toNat < 2 ^ n)
    (none_set : bitCountLoop n v = 0) : v.toNat = 0 := by
  induction n generalizing v with
  | zero => omega
  | succ n ih =>
    rw [bitCountLoop_succ] at none_set
    have half := ih (v >>> 1) (by rw [shiftRight_one]; omega) (by omega)
    rw [shiftRight_one] at half
    omega

/-- A mask in which one bit is counted. -/
theorem toNat_of_bitCountLoop_one (n : Nat) (v : Word) (small : v.toNat < 2 ^ n)
    (one_set : bitCountLoop n v = 1) : ∃ p < n, v.toNat = 2 ^ p := by
  induction n generalizing v with
  | zero =>
    rw [bitCountLoop] at one_set
    cases one_set
  | succ n ih =>
    rw [bitCountLoop_succ] at one_set
    have half : (v >>> 1).toNat < 2 ^ n := by
      rw [shiftRight_one]
      omega
    rcases Nat.mod_two_eq_zero_or_one v.toNat with even | odd
    · obtain ⟨p, below, power⟩ := ih (v >>> 1) half (by omega)
      rw [shiftRight_one] at power
      refine ⟨p + 1, by omega, ?_⟩
      rw [Nat.pow_succ]
      omega
    · have rest := toNat_of_bitCountLoop_zero n (v >>> 1) half (by omega)
      rw [shiftRight_one] at rest
      exact ⟨0, by omega, by rw [Nat.pow_zero]; omega⟩

private theorem onePort_masks : ∀ p < 32,
    bitCount ((1 : Word) <<< p) = 1 ∧ portOfMask ((1 : Word) <<< p) = p + 1 := by
  decide

private theorem bitCount_one_iff (v : Word) : bitCount v = 1 ↔ ∃ p < 32, v = (1 : Word) <<< p := by
  constructor
  · intro one_set
    obtain ⟨p, below, power⟩ := toNat_of_bitCountLoop_one 32 v v.isLt one_set
    refine ⟨p, below, BitVec.eq_of_toNat_eq ?_⟩
    have fits : 2 ^ p < 2 ^ 32 := Nat.pow_lt_pow_right (by decide) below
    rw [power, BitVec.toNat_shiftLeft, Nat.shiftLeft_eq]
    exact (Nat.mod_eq_of_lt (by simpa using fits)).symm.trans (by simp)
  · rintro ⟨p, below, rfl⟩
    exact (onePort_masks p below).1

/-! ### The loops over the source mask -/

/-- The ports of the `k` lowest bits of a mask whose lowest bit stands for `port`. -/
def portsFrom : Nat → Nat → Word → List Nat
  | 0, _, _ => []
  | k + 1, port, portMask =>
    (if portMask &&& 1 = 1 then [port] else []) ++ portsFrom k (port + 1) (portMask >>> 1)

private theorem portsFrom_zero (k port : Nat) : portsFrom k port 0 = [] := by
  induction k generalizing port with
  | zero => rfl
  | succ k ih =>
    rw [portsFrom, if_neg (by decide)]
    exact ih (port + 1)

private theorem skipPorts_mono (turns port : Nat) (portMask : Word) (found : Nat × Word)
    (skipped : skipPorts turns port portMask = some found) :
    skipPorts (turns + 1) port portMask = some found := by
  induction turns generalizing port portMask with
  | zero => cases skipped
  | succ turns ih =>
    rw [skipPorts] at skipped ⊢
    split_ifs at skipped ⊢ with absent
    · exact ih (port + 1) (portMask >>> 1) skipped
    · exact skipped

private theorem skipPorts_returns (k turns port : Nat) (portMask : Word)
    (small : portMask.toNat < 2 ^ k)
    (enough : k < turns) : ∃ found, skipPorts turns port portMask = some found := by
  induction k generalizing turns port portMask with
  | zero =>
    obtain ⟨turns, rfl⟩ : ∃ n, turns = n + 1 := ⟨turns - 1, by omega⟩
    have zero : portMask = 0 := BitVec.eq_of_toNat_eq (by simp; omega)
    exact ⟨(port, portMask), by rw [skipPorts, if_neg (by simp [zero])]⟩
  | succ k ih =>
    obtain ⟨turns, rfl⟩ : ∃ n, turns = n + 1 := ⟨turns - 1, by omega⟩
    rw [skipPorts]
    split_ifs with absent
    · exact ih turns (port + 1) (portMask >>> 1) (by rw [shiftRight_one]; omega) (by omega)
    · exact ⟨_, rfl⟩

/-- Shifting an unset bit out of a mask makes no difference to what is skipped. -/
theorem skipPorts_shift (k limit port : Nat) (portMask : Word)
    (small : portMask.toNat < 2 ^ (k + 1)) (enough : k + 1 < limit) (absent : portMask &&& 1 = 0)
    (more : portMask ≠ 0) :
    skipPorts limit port portMask = skipPorts limit (port + 1) (portMask >>> 1) := by
  obtain ⟨turns, rfl⟩ : ∃ n, limit = n + 1 := ⟨limit - 1, by omega⟩
  obtain ⟨found, skipped⟩ := skipPorts_returns k turns (port + 1) (portMask >>> 1)
    (by rw [shiftRight_one]; omega) (by omega)
  rw [skipPorts, if_pos ⟨absent, more⟩, skipped, skipPorts_mono _ _ _ _ skipped]

/-- What a turn does with the port that it has come to. -/
def receiveTurn (limit : Nat) (indexesSet : Nat → Bool) (turns : Nat) (at_port : Nat × Word) :
    Option (List Nat) :=
  if at_port.1 ≠ 0 ∧ at_port.2 = 0 then some []
  else if ¬ indexesSet at_port.1 then
    receiveLoop limit indexesSet turns at_port.1 at_port.2
  else if at_port.1 = 0 then some [0]
  else (at_port.1 :: ·) <$> receiveLoop limit indexesSet turns (at_port.1 + 1) (at_port.2 >>> 1)

private theorem receiveLoop_succ (limit : Nat) (indexesSet : Nat → Bool) (turns port : Nat)
    (portMask : Word) (counted : port ≠ 0) :
    receiveLoop limit indexesSet (turns + 1) port portMask =
      (skipPorts limit port portMask).bind (receiveTurn limit indexesSet turns) := by
  rw [receiveLoop, if_pos counted]
  rfl

/-- The loops end after as many turns as there are bits, with the ports of the mask. -/
theorem receiveLoop_ports (indexesSet : Nat → Bool) (succeeds : ∀ port, indexesSet port = true)
    (limit k turns port : Nat) (portMask : Word) (small : portMask.toNat < 2 ^ k)
    (counted : port ≠ 0) (enough : k < turns) (enough' : k < limit) :
    receiveLoop limit indexesSet turns port portMask = some (portsFrom k port portMask) := by
  -- an empty mask ends the loop
  have stop : ∀ turns port, port ≠ 0 →
      receiveLoop limit indexesSet (turns + 1) port 0 = some [] := by
    intro turns port counted
    obtain ⟨more, rfl⟩ : ∃ n, limit = n + 1 := ⟨limit - 1, by omega⟩
    rw [receiveLoop_succ _ _ _ _ _ counted, skipPorts, if_neg (by simp), Option.bind_some,
      receiveTurn, if_pos ⟨counted, rfl⟩]
  induction k generalizing turns port portMask with
  | zero =>
    obtain ⟨turns, rfl⟩ : ∃ n, turns = n + 1 := ⟨turns - 1, by omega⟩
    have zero : portMask = 0 := BitVec.eq_of_toNat_eq (by simp; omega)
    rw [zero]
    exact stop turns port counted
  | succ k ih =>
    obtain ⟨turns, rfl⟩ : ∃ n, turns = n + 1 := ⟨turns - 1, by omega⟩
    have half : (portMask >>> 1).toNat < 2 ^ k := by
      rw [shiftRight_one]
      omega
    by_cases zero : portMask = 0
    · rw [zero, portsFrom_zero]
      exact stop turns port counted
    -- the lowest bit is the next port, or is shifted out
    · by_cases present : portMask &&& 1 = 1
      · have here : skipPorts limit port portMask = some (port, portMask) := by
          obtain ⟨more, rfl⟩ : ∃ n, limit = n + 1 := ⟨limit - 1, by omega⟩
          rw [skipPorts, if_neg (by rw [present]; simp)]
        have rest := ih turns (port + 1) (portMask >>> 1) half (by omega) (by omega) (by omega)
        rw [receiveLoop_succ _ _ _ _ _ counted, here, Option.bind_some, receiveTurn,
          if_neg (fun both => zero both.2), if_neg (by simp [succeeds]), if_neg counted]
        simp only [rest, portsFrom, if_pos present]
        rfl
      · have absent : portMask &&& 1 = 0 := by
          have odd : portMask.toNat % 2 ≠ 1 := fun odd => present ((lowBit_iff portMask).mpr odd)
          apply BitVec.eq_of_toNat_eq
          change portMask.toNat &&& 1 = 0
          rw [Nat.and_one_is_mod]
          omega
        have rest := ih (turns + 1) (port + 1) (portMask >>> 1) half (by omega) (by omega)
          (by omega)
        rw [receiveLoop_succ _ _ _ _ _ (by omega)] at rest
        rw [receiveLoop_succ _ _ _ _ _ counted,
          skipPorts_shift k limit port portMask small enough' absent zero, rest, portsFrom,
          if_neg present]
        rfl

private theorem portsFrom_eq (k port : Nat) (portMask : Word) :
    portsFrom k port portMask = ((List.range k).filter portMask.getLsbD).map (port + ·) := by
  induction k generalizing port portMask with
  | zero => rfl
  | succ k ih =>
    -- shifting the mask moves every port one place down
    have later : portMask.getLsbD ∘ Nat.succ = (portMask >>> 1).getLsbD := by
      funext i
      rw [BitVec.getLsbD_ushiftRight, Function.comp_apply, Nat.succ_eq_one_add]
    have moved : ((port + ·) ∘ Nat.succ) = (port + 1 + ·) := by
      funext i
      simp only [Function.comp_apply]
      omega
    have lowest : portMask &&& 1 = 1 ↔ portMask.getLsbD 0 = true := by
      rw [lowBit_iff, BitVec.getLsbD, Nat.testBit_zero, decide_eq_true_iff]
    rw [portsFrom, ih, List.range_succ_eq_map, List.filter_cons, List.filter_map, later]
    by_cases present : portMask &&& 1 = 1
    · rw [if_pos present, if_pos (lowest.mp present), List.map_cons, List.map_map, moved]
      rfl
    · rw [if_neg present, if_neg fun bit => present (lowest.mpr bit), List.map_map, moved]
      rfl

/-- The receive ports of the rows of a static entry: port 0 for all, or the ports of the source
mask. -/
def receivePorts (nports : Nat) (src : Word) : List Nat :=
  if src &&& rtuPmaskMax nports = rtuPmaskMax nports then [0]
  else ((List.range nports).filter src.getLsbD).map (1 + ·)

private theorem rtuPmaskMax_bit : ∀ nports < 32, ∀ i < 32,
    (rtuPmaskMax nports).getLsbD i = decide (i < nports) := by
  decide +kernel

/-- Bits that do not stand for ports are ignored. -/
theorem maskedPorts_eq (nports : Nat) (src : Word) (few : nports < 32) :
    (List.range 32).filter (src &&& rtuPmaskMax nports).getLsbD =
      (List.range nports).filter src.getLsbD := by
  -- the mask leaves the ports of the switch
  have whole : List.range 32 = List.range nports ++
      (List.range (32 - nports)).map (nports + ·) := by
    rw [← List.range_add]
    congr 1
    omega
  have bit : ∀ i < 32, (src &&& rtuPmaskMax nports).getLsbD i =
      (src.getLsbD i && decide (i < nports)) := by
    intro i below
    rw [BitVec.getLsbD_and, rtuPmaskMax_bit nports few i below]
  have ports : (List.range nports).filter (src &&& rtuPmaskMax nports).getLsbD =
      (List.range nports).filter src.getLsbD := by
    refine List.filter_congr fun i member => ?_
    have below := List.mem_range.mp member
    rw [bit i (by omega), decide_eq_true below, Bool.and_true]
  have others : ((List.range (32 - nports)).map (nports + ·)).filter
      (src &&& rtuPmaskMax nports).getLsbD = [] := by
    refine List.filter_eq_nil_iff.mpr fun i member => ?_
    obtain ⟨j, inside, rfl⟩ := List.mem_map.mp member
    have below := List.mem_range.mp inside
    have above : ¬ nports + j < nports := by omega
    rw [bit _ (by omega), decide_eq_false above, Bool.and_false]
    decide
  rw [whole, List.filter_append, ports, others, List.append_nil]

private theorem receivePorts_nodup (nports : Nat) (src : Word) :
    (receivePorts nports src).Nodup := by
  unfold receivePorts
  split_ifs
  · exact List.nodup_singleton 0
  · exact (List.nodup_range.filter _).map fun a b same => Nat.add_left_cancel same

/-! ### The rows of an entry -/

/-- Where an index always fits the room that it is given. -/
def OidsFit (buildOid : BuildOid) : Prop :=
  ∀ (index : List Nat) (room : Nat), index.length ≤ room → buildOid index room = true

/-- The destination is one port and not the CPU. -/
def OnePort (nports : Nat) (e : RtuFilteringEntry) : Prop :=
  ∃ p < 32, p ≠ nports ∧ e.portMaskDst = (1 : Word) <<< p

/-- A static entry that is not for the CPU alone. -/
def IsStatic (nports : Nat) (e : RtuFilteringEntry) : Prop :=
  e.portMaskDst ≠ cpuMask nports ∧ e.dynamic = rtuEntryTypeStatic

instance (nports : Nat) (e : RtuFilteringEntry) : Decidable (IsStatic nports e) :=
  inferInstanceAs (Decidable (_ ∧ _))

private theorem shift_injective :
    ∀ p < 32, ∀ q < 32, (1 : Word) <<< p = (1 : Word) <<< q → p = q := by
  decide +kernel

/-- An entry has a row in a table of learned addresses just if it is for one port. -/
theorem tpFdbRow_some_iff {κ : Type} (nports : Nat) (few : nports < 32)
    (index : RtuFilteringEntry → κ) (indexesSet : RtuFilteringEntry → Bool)
    (succeeds : ∀ e, indexesSet e = true) (e : RtuFilteringEntry) (valid : isValid e = true)
    (row : TpFdbRow κ) :
    tpFdbRow nports index indexesSet e = some row ↔
      ∃ p < 32, p ≠ nports ∧ e.portMaskDst = (1 : Word) <<< p ∧
        row = ⟨index e, p + 1, tpFdbStatusMap e.dynamic⟩ := by
  have occupied : ¬ e.valid = 0 := by simpa [isValid] using valid
  unfold tpFdbRow
  rw [if_neg occupied]
  -- a row needs exactly one bit in the mask
  by_cases one : bitCount e.portMaskDst = 1
  · obtain ⟨p, below, mask⟩ := (bitCount_one_iff e.portMaskDst).mp one
    have port := (onePort_masks p below).2
    rw [if_neg (not_not_intro one), if_neg (c := ¬ indexesSet e = true) (by simp [succeeds]), mask,
      port]
    -- the bit of the CPU is the only one refused
    have cpu : (1 : Word) <<< p = cpuMask nports ↔ p = nports :=
      ⟨shift_injective p below nports few, fun same => by rw [same, cpuMask]⟩
    constructor
    · intro found
      split_ifs at found with toCpu
      exact ⟨p, below, fun same => toCpu (cpu.mpr same), rfl, (Option.some.inj found).symm⟩
    · rintro ⟨q, below', other, same, rfl⟩
      obtain rfl := shift_injective p below q below' same
      rw [if_neg fun toCpu => other (cpu.mp toCpu)]
  · rw [if_pos one]
    constructor
    · intro found
      cases found
    · rintro ⟨p, below, -, mask, -⟩
      exact absurd ((bitCount_one_iff _).mpr ⟨p, below, mask⟩) one

/-- The rows of a static entry. -/
def rowsOfStatic (nports : Nat) (e : RtuFilteringEntry) : List StaticRow :=
  if IsStatic nports e then (receivePorts nports e.portMaskSrc).map (staticRow nports e) else []

private theorem mem_rowsOfStatic (nports : Nat) (e : RtuFilteringEntry) (row : StaticRow) :
    row ∈ rowsOfStatic nports e ↔ IsStatic nports e ∧
      ∃ port ∈ receivePorts nports e.portMaskSrc, row = staticRow nports e port := by
  unfold rowsOfStatic
  split_ifs with static
  · simp [static, eq_comm]
  · simp [static]

/-- The loops over a mask end, whatever it is, within 33 turns. -/
theorem staticRows_eq (buildOid : BuildOid) (fit : OidsFit buildOid) (turns nports : Nat)
    (enough : 33 ≤ turns) (few : nports < 32) (e : RtuFilteringEntry) (valid : isValid e = true) :
    staticRows buildOid turns nports e = some (rowsOfStatic nports e) := by
  have occupied : ¬ e.valid = 0 := by simpa [isValid] using valid
  have succeeds : ∀ port, buildOid (macOid e.mac ++ [port]) 7 = true := fun port =>
    fit _ _ (by simp [macOid, macBytes])
  unfold staticRows rowsOfStatic
  rw [if_neg occupied]
  -- an entry for the CPU has no row, and a dynamic one has none here
  by_cases toCpu : e.portMaskDst = cpuMask nports
  · rw [if_pos toCpu, if_neg fun static => static.1 toCpu]
  · by_cases static : e.dynamic = rtuEntryTypeStatic
    · rw [if_neg toCpu, if_neg (not_not_intro static), if_pos ⟨toCpu, static⟩]
      by_cases all : e.portMaskSrc &&& rtuPmaskMax nports = rtuPmaskMax nports
      · obtain ⟨more, rfl⟩ : ∃ n, turns = n + 1 := ⟨turns - 1, by omega⟩
        simp [all, receivePorts, receiveLoop, succeeds]
      · have ports := receiveLoop_ports (fun port => buildOid (macOid e.mac ++ [port]) 7) succeeds
          turns 32 turns 1 (e.portMaskSrc &&& rtuPmaskMax nports) (BitVec.isLt _) (by decide)
          (by omega) (by omega)
        rw [portsFrom_eq, maskedPorts_eq nports _ few] at ports
        simp only [all, if_false, ports, receivePorts, Option.map_some]
    · rw [if_neg toCpu, if_pos static, if_neg fun both => static both.2]

/-! ### The tables -/

private theorem mapM_some {α β : Type} (f : α → Option β) (g : α → β) (xs : List α)
    (returns : ∀ x ∈ xs, f x = some (g x)) : xs.mapM f = some (xs.map g) := by
  induction xs with
  | nil => rfl
  | cons x xs ih =>
    rw [List.mapM_cons, returns x List.mem_cons_self,
      ih fun y member => returns y (List.mem_cons_of_mem _ member)]
    rfl

/-- A table of learned addresses with some index. -/
def tpFdbRows {κ : Type} (cmp : RtuFilteringEntry → RtuFilteringEntry → Int) (nports : Nat)
    (index : RtuFilteringEntry → κ) (indexesSet : RtuFilteringEntry → Bool) (t : Htab) :
    List (TpFdbRow κ) :=
  (sortedEntries cmp (sharedTable t)).filterMap (tpFdbRow nports index indexesSet)

section
variable {κ : Type} (cmp : RtuFilteringEntry → RtuFilteringEntry → Int) (nports : Nat)
  (few : nports < 32) (index : RtuFilteringEntry → κ) (indexesSet : RtuFilteringEntry → Bool)
  (succeeds : ∀ e, indexesSet e = true) (t : Htab)
include few succeeds

private theorem mem_tpFdbRows (e : RtuFilteringEntry) (member : e ∈ validEntries t) (p : Nat)
    (below : p < 32) (other : p ≠ nports) (mask : e.portMaskDst = (1 : Word) <<< p) :
    ⟨index e, p + 1, tpFdbStatusMap e.dynamic⟩ ∈ tpFdbRows cmp nports index indexesSet t := by
  have sorted := (sortedEntries_perm cmp (sharedTable t)).mem_iff.mpr member
  have valid := (List.mem_filter.mp member).2
  exact List.mem_filterMap.mpr ⟨e, sorted,
    (tpFdbRow_some_iff nports few index indexesSet succeeds e valid _).mpr
      ⟨p, below, other, mask, rfl⟩⟩

private theorem tpFdbRows_nodup_iff (unique : UniqueKeys t) :
    ((tpFdbRows cmp nports index indexesSet t).map TpFdbRow.index).Nodup ↔
      ∀ a ∈ validEntries t, ∀ b ∈ validEntries t, entryKey a ≠ entryKey b →
        OnePort nports a → OnePort nports b → index a ≠ index b := by
  have rows : ((tpFdbRows cmp nports index indexesSet t).map TpFdbRow.index).Perm
      (((validEntries t).flatMap fun e => (tpFdbRow nports index indexesSet e).toList).map
        TpFdbRow.index) := by
    rw [← List.filterMap_eq_flatMap_toList]
    exact ((sortedEntries_perm cmp (sharedTable t)).filterMap _).map _
  -- the rows of one entry differ in their port
  have each : ∀ e ∈ validEntries t,
      ((tpFdbRow nports index indexesSet e).toList.map TpFdbRow.index).Nodup := by
    intro e _
    cases tpFdbRow nports index indexesSet e <;> simp
  rw [rows.nodup_iff, rowKeys_nodup_iff _ entryKey _ _ (validEntries_distinct unique) each]
  refine forall₂_congr fun a inA => forall₂_congr fun b inB => imp_congr_right fun _ => ?_
  have rowOf := fun e valid => tpFdbRow_some_iff nports few index indexesSet succeeds e valid
  have validA := (List.mem_filter.mp inA).2
  have validB := (List.mem_filter.mp inB).2
  constructor
  · rintro apart ⟨p, below, other, mask⟩ ⟨q, below', other', mask'⟩
    exact apart _ (Option.mem_toList.mpr ((rowOf a validA _).mpr ⟨p, below, other, mask, rfl⟩))
      _ (Option.mem_toList.mpr ((rowOf b validB _).mpr ⟨q, below', other', mask', rfl⟩))
  · intro apart x inX y inY
    obtain ⟨p, below, other, mask, rfl⟩ := (rowOf a validA x).mp (Option.mem_toList.mp inX)
    obtain ⟨q, below', other', mask', rfl⟩ := (rowOf b validB y).mp (Option.mem_toList.mp inY)
    exact apart ⟨p, below, other, mask⟩ ⟨q, below', other', mask'⟩

end

/-- The table of static addresses. -/
def staticTable (nports : Nat) (t : Htab) : List StaticRow :=
  (sortedEntries cmpRtuEntriesFidMac (sharedTable t)).flatMap (rowsOfStatic nports)

private theorem dot1dStaticTable_returns (buildOid : BuildOid) (fit : OidsFit buildOid)
    (turns nports : Nat) (enough : 33 ≤ turns) (few : nports < 32) (t : Htab) :
    dot1dStaticTableContainerLoad buildOid turns nports (sharedTable t) =
      some (staticTable nports t) := by
  have rows := mapM_some (staticRows buildOid turns nports) (rowsOfStatic nports)
    (sortedEntries cmpRtuEntriesFidMac (sharedTable t)) fun e member =>
      staticRows_eq buildOid fit turns nports enough few e
        (List.mem_filter.mp ((sortedEntries_perm _ _).mem_iff.mp member)).2
  rw [dot1dStaticTableContainerLoad, rows, Option.map_some, staticTable, List.flatMap]

private theorem mem_staticTable (nports : Nat) (t : Htab) (row : StaticRow) :
    row ∈ staticTable nports t ↔ ∃ e ∈ validEntries t, IsStatic nports e ∧
      ∃ port ∈ receivePorts nports e.portMaskSrc, row = staticRow nports e port := by
  rw [staticTable, List.mem_flatMap]
  exact exists_congr fun e =>
    and_congr (sortedEntries_perm _ _).mem_iff (mem_rowsOfStatic nports e row)

def staticIndex (row : StaticRow) : Mac × Nat := (row.address, row.receivePort)

private theorem staticTable_nodup_iff (nports : Nat) (t : Htab) (unique : UniqueKeys t) :
    ((staticTable nports t).map staticIndex).Nodup ↔
      ∀ a ∈ validEntries t, ∀ b ∈ validEntries t, entryKey a ≠ entryKey b →
        IsStatic nports a → IsStatic nports b → a.mac = b.mac →
        ∀ port ∈ receivePorts nports a.portMaskSrc, port ∉ receivePorts nports b.portMaskSrc := by
  have rows : ((staticTable nports t).map staticIndex).Perm
      (((validEntries t).flatMap (rowsOfStatic nports)).map staticIndex) :=
    ((sortedEntries_perm _ _).flatMap_right _).map _
  -- the rows of one entry differ in their port
  have each : ∀ e ∈ validEntries t, ((rowsOfStatic nports e).map staticIndex).Nodup := by
    intro e _
    unfold rowsOfStatic
    split_ifs
    · rw [List.map_map]
      exact (receivePorts_nodup nports e.portMaskSrc).map fun p q same => congrArg Prod.snd same
    · exact List.nodup_nil
  rw [rows.nodup_iff, rowKeys_nodup_iff _ entryKey _ _ (validEntries_distinct unique) each]
  refine forall₂_congr fun a inA => forall₂_congr fun b inB => imp_congr_right fun _ => ?_
  constructor
  · intro apart staticA staticB sameMac port inA inB
    have rowA := (mem_rowsOfStatic nports a _).mpr ⟨staticA, port, inA, rfl⟩
    have rowB := (mem_rowsOfStatic nports b _).mpr ⟨staticB, port, inB, rfl⟩
    exact apart _ rowA _ rowB (Prod.ext sameMac rfl)
  · intro apart x inX y inY same
    obtain ⟨staticA, p, inP, rfl⟩ := (mem_rowsOfStatic nports a x).mp inX
    obtain ⟨staticB, q, inQ, rfl⟩ := (mem_rowsOfStatic nports b y).mp inY
    have samePort : p = q := congrArg Prod.snd same
    exact apart staticA staticB (congrArg Prod.fst same) p inP (samePort ▸ inQ)

/-! ### Views that lose nothing -/

/-- No index twice, and the rows that the entries call for. An index that is not there twice has
one row. -/
structure LosesNothing (nports : Nat) (t : Htab) (dot1q : List (TpFdbRow (Byte × Mac)))
    (dot1d : List (TpFdbRow Mac)) (static : List StaticRow) : Prop where
  dot1qIndexes : (dot1q.map TpFdbRow.index).Nodup
  dot1dIndexes : (dot1d.map TpFdbRow.index).Nodup
  staticIndexes : (static.map staticIndex).Nodup
  dot1qRows : ∀ e ∈ validEntries t, ∀ p < 32, p ≠ nports → e.portMaskDst = (1 : Word) <<< p →
    ⟨(e.fid, e.mac), p + 1, tpFdbStatusMap e.dynamic⟩ ∈ dot1q
  dot1dRows : ∀ e ∈ validEntries t, ∀ p < 32, p ≠ nports → e.portMaskDst = (1 : Word) <<< p →
    ⟨e.mac, p + 1, tpFdbStatusMap e.dynamic⟩ ∈ dot1d
  staticRows : ∀ row, row ∈ static ↔ ∃ e ∈ validEntries t, IsStatic nports e ∧
    ∃ port ∈ receivePorts nports e.portMaskSrc, row = staticRow nports e port

/-- Where one address is in several filtering databases, only one of its entries is for one port,
and the static ones have no receive port in common. -/
structure DatabasesApart (nports : Nat) (t : Htab) : Prop where
  learned : ∀ a ∈ validEntries t, ∀ b ∈ validEntries t, a.mac = b.mac →
    OnePort nports a → OnePort nports b → a.fid = b.fid
  static : ∀ a ∈ validEntries t, ∀ b ∈ validEntries t, a.mac = b.mac →
    IsStatic nports a → IsStatic nports b → a.fid ≠ b.fid →
    ∀ port ∈ receivePorts nports a.portMaskSrc, port ∉ receivePorts nports b.portMaskSrc

private theorem dot1q_nodup (buildOid : BuildOid) (fit : OidsFit buildOid) (nports : Nat)
    (few : nports < 32) (t : Htab) (unique : UniqueKeys t) :
    ((dot1qTpFdbTableContainerLoad buildOid nports (sharedTable t)).map TpFdbRow.index).Nodup := by
  have succeeds : ∀ e : RtuFilteringEntry, buildOid (e.fid.toNat :: macOid e.mac) 7 = true :=
    fun e => fit _ _ (by simp [macOid, macBytes])
  exact (tpFdbRows_nodup_iff cmpRtuEntriesFidMac nports few (fun e => (e.fid, e.mac)) _ succeeds t
    unique).mpr fun a _ b _ differ _ _ => differ

private theorem dot1d_nodup_iff (buildOid : BuildOid) (fit : OidsFit buildOid) (nports : Nat)
    (few : nports < 32) (t : Htab) (unique : UniqueKeys t) :
    ((dot1dTpFdbTableContainerLoad buildOid nports (sharedTable t)).map TpFdbRow.index).Nodup ↔
      ∀ a ∈ validEntries t, ∀ b ∈ validEntries t, a.mac = b.mac →
        OnePort nports a → OnePort nports b → a.fid = b.fid := by
  have succeeds : ∀ e : RtuFilteringEntry, buildOid (macOid e.mac) 6 = true :=
    fun e => fit _ _ (by simp [macOid, macBytes])
  refine (tpFdbRows_nodup_iff cmpRtuEntriesMac nports few (fun e => e.mac) _ succeeds t
    unique).trans ?_
  refine forall₂_congr fun a _ => forall₂_congr fun b _ => ?_
  constructor
  · intro apart sameMac oneA oneB
    by_contra differ
    exact apart (fun same => differ (congrArg Prod.fst same)) oneA oneB sameMac
  · intro same differ oneA oneB sameMac
    exact differ (Prod.ext (same sameMac oneA oneB) sameMac)

/-- The static table is loaded for every mask; and the three tables lose nothing just if one
address does not make the same row in two filtering databases. -/
theorem losesNothing_iff (buildOid : BuildOid) (fit : OidsFit buildOid) (nports : Nat)
    (few : nports < 32) (t : Htab) (unique : UniqueKeys t) :
    ∃ static, (∀ turns, 33 ≤ turns →
        dot1dStaticTableContainerLoad buildOid turns nports (sharedTable t) = some static) ∧
      (LosesNothing nports t (dot1qTpFdbTableContainerLoad buildOid nports (sharedTable t))
        (dot1dTpFdbTableContainerLoad buildOid nports (sharedTable t)) static ↔
      DatabasesApart nports t) := by
  refine ⟨staticTable nports t, fun turns enough =>
    dot1dStaticTable_returns buildOid fit turns nports enough few t, ?_⟩
  have dot1d := dot1d_nodup_iff buildOid fit nports few t unique
  have static := staticTable_nodup_iff nports t unique
  constructor
  · intro nothing
    refine ⟨dot1d.mp nothing.dot1dIndexes, ?_⟩
    intro a inA b inB sameMac staticA staticB otherFid
    -- two filters tell entries apart that share an address
    have differ : entryKey a ≠ entryKey b := fun same => otherFid (congrArg Prod.fst same)
    exact static.mp nothing.staticIndexes a inA b inB differ staticA staticB sameMac
  · intro apart
    refine ⟨dot1q_nodup buildOid fit nports few t unique, dot1d.mpr apart.learned, ?_, ?_, ?_,
      mem_staticTable nports t⟩
    · refine static.mpr fun a inA b inB differ staticA staticB sameMac => ?_
      have otherFid : a.fid ≠ b.fid := fun same => differ (Prod.ext same sameMac)
      exact apart.static a inA b inB sameMac staticA staticB otherFid
    · exact fun e member p below other mask => mem_tpFdbRows cmpRtuEntriesFidMac nports few
        (fun e => (e.fid, e.mac)) _ (fun e => fit _ _ (by simp [macOid, macBytes])) t e member p
        below other mask
    · exact fun e member p below other mask => mem_tpFdbRows cmpRtuEntriesMac nports few
        (fun e => e.mac) _ (fun e => fit _ _ (by simp [macOid, macBytes])) t e member p below
        other mask

/-- One address in the filtering databases 1 and 2, for the first port. -/
def twoDatabases : Htab := fun h b =>
  if h < 2 ∧ b = 0 then
    { RtuFilteringEntry.zero with
      valid := 1
      mac := ⟨0, 0, 0, 0, 0, 1⟩
      fid := BitVec.ofNat 8 (h + 1)
      portMaskSrc := 0xFFFFFFFF
      portMaskDst := 1 }
  else .zero

private theorem twoDatabases_unique : UniqueKeys twoDatabases := by
  intro h _ b _ h' _ b' _ valid valid' _ sameFid
  have placed : ∀ h b, twoDatabases.Valid h b → h < 2 ∧ b = 0 := by
    intro h b valid
    by_contra elsewhere
    exact valid (by rw [twoDatabases, if_neg elsewhere]; rfl)
  have fid : ∀ h b, h < 2 ∧ b = 0 → (twoDatabases h b).fid = BitVec.ofNat 8 (h + 1) := by
    intro h b here
    rw [twoDatabases, if_pos here]
  have first := placed h b valid
  have second := placed h' b' valid'
  rw [fid h b first, fid h' b' second] at sameFid
  have same := congrArg BitVec.toNat sameFid
  simp only [BitVec.toNat_ofNat] at same
  omega

private theorem mem_twoDatabases (h : Nat) (small : h < 2) :
    twoDatabases h 0 ∈ validEntries twoDatabases := by
  have slot : (h, 0) ∈ slots := (mem_slots (h, 0)).mpr ⟨by simp; omega, by simp⟩
  refine List.mem_filter.mpr ⟨List.mem_map.mpr ⟨(h, 0), slot, rfl⟩, ?_⟩
  rw [twoDatabases, if_pos ⟨small, rfl⟩]
  rfl

/-- `build_oid_noalloc` with room for an index or without. -/
def buildWithin : BuildOid := fun index room => decide (index.length ≤ room)

private theorem buildWithin_fits : OidsFit buildWithin := fun _ _ fits => decide_eq_true fits

/-- A database with two FIDs: how long its static table takes, and when nothing of it is lost. -/
theorem losesNothing_two :
    ∃ static, (∀ turns, 33 ≤ turns →
        dot1dStaticTableContainerLoad buildWithin turns 18 (sharedTable twoDatabases) =
          some static) ∧
      (LosesNothing 18 twoDatabases
        (dot1qTpFdbTableContainerLoad buildWithin 18 (sharedTable twoDatabases))
        (dot1dTpFdbTableContainerLoad buildWithin 18 (sharedTable twoDatabases)) static ↔
      DatabasesApart 18 twoDatabases) :=
  losesNothing_iff buildWithin buildWithin_fits 18 (by decide) twoDatabases twoDatabases_unique

/-- The two entries get rows of one index in both tables that leave the database out. -/
theorem twoDatabases_collide : UniqueKeys twoDatabases ∧
    ¬((dot1dTpFdbTableContainerLoad buildWithin 18 (sharedTable twoDatabases)).map
      TpFdbRow.index).Nodup ∧
    ∃ static, dot1dStaticTableContainerLoad buildWithin 33 18 (sharedTable twoDatabases) =
      some static ∧ ¬(static.map staticIndex).Nodup := by
  have inFirst := mem_twoDatabases 0 (by decide)
  have inSecond := mem_twoDatabases 1 (by decide)
  refine ⟨twoDatabases_unique, ?_, ?_⟩
  · rw [dot1d_nodup_iff buildWithin buildWithin_fits 18 (by decide) _ twoDatabases_unique]
    intro apart
    have onePort : ∀ h < 2, OnePort 18 (twoDatabases h 0) := fun h small =>
      ⟨0, by decide, by decide, by rw [twoDatabases, if_pos ⟨small, rfl⟩]; rfl⟩
    have same := apart _ inFirst _ inSecond rfl (onePort 0 (by decide)) (onePort 1 (by decide))
    revert same
    decide
  · refine ⟨staticTable 18 twoDatabases, dot1dStaticTable_returns buildWithin buildWithin_fits 33 18
      (by decide) (by decide) twoDatabases, ?_⟩
    rw [staticTable_nodup_iff 18 _ twoDatabases_unique]
    intro apart
    have all : 0 ∈ receivePorts 18 0xFFFFFFFF := by decide
    have static : ∀ h < 2, IsStatic 18 (twoDatabases h 0) := by decide
    exact apart _ inFirst _ inSecond (by decide) (static 0 (by decide)) (static 1 (by decide)) rfl
      0 all all

end WrSwitch.Snmp
