import Mathlib.Tactic.IntervalCases
import WrSwitch.Libwr.DotConfig
import WrSwitch.Tools.WrsVlans

/-!
# Lists of ports

`parse_mask` of `wrs_vlans.c`, which reads the ports of `--port` and of the VLANs in the
configuration file, and `read_dot_config_vlans`, which uses it.
-/
namespace WrSwitch.Tools

open Libwr

/-! ### `parse_mask` -/

def nports : Nat := 18

/-- The delimiters of `strtok`. -/
def isSeparator (c : Char) : Bool := c = ',' ∨ c = ';'

/-- What the calls of `strtok` give one after the other. -/
def tokens (arg : List Char) : List (List Char) := (arg.splitOnP isSeparator).filter (· ≠ [])

/-- `sscanf` with `%i-%i%c` and the `switch`: the two ports, or `none` for the default. -/
def scanRange (s : List Char) : Option (Int × Int) :=
  let (p1, rest) := strtol s
  if rest = s then none
  else
    match rest with
    | '-' :: upper =>
      let (p2, rest) := strtol upper
      if rest = upper then some (p1, p1)
      else if rest = [] then some (p1, p2)
      -- a third conversion
      else none
    -- one conversion, whatever stands behind it
    | _ => some (p1, p1)

/-- `1 << p` for the ports from `p1` to `p2`. -/
def portBits (p1 p2 : Nat) : Word :=
  (List.range' p1 (p2 + 1 - p1)).foldl (fun pmask p => pmask ||| 1#32 <<< p) 0

/-- The loop: the return value, and the mask it leaves. -/
def parseTokens : List (List Char) → Word → Int × Word
  | [], pmask => (0, pmask)
  | s :: rest, pmask =>
    match scanRange s with
    | none => (-1, pmask)
    | some (p1, p2) =>
      let p1 := p1 - 1
      let p2 := p2 - 1
      if p1 > p2 ∨ p1 < 0 ∨ p2 ≥ nports then (-1, pmask)
      else parseTokens rest (pmask ||| portBits p1.toNat p2.toNat)

def parseMask (arg : List Char) (pmask : Word) : Int × Word := parseTokens (tokens arg) pmask

/-! ### `read_dot_config_vlans` -/

/-- `VLANS_VLAN%04d` -/
def vlanKey (vlan : Nat) : List Char :=
  ['V', 'L', 'A', 'N', 'S', '_', 'V', 'L', 'A', 'N'] ++
    (Nat.toDigits 10 vlan).leftpad 4 '0'

def fidName : List Char := ['f', 'i', 'd']
def prioName : List Char := ['p', 'r', 'i', 'o']
def dropName : List Char := ['d', 'r', 'o', 'p']
def portsName : List Char := ['p', 'o', 'r', 't', 's']

/-- One turn of the loop. What `parse_mask` returns is not looked at. -/
def readVlanItem (libwrCfg : List CfgItem) (vlan : Nat) (rtuVlans : List RtuVlans) :
    Option (List RtuVlans) :=
  let get := libwrCfgGet2 libwrCfg (vlanKey vlan)
  readDotConfigVlan vlan (get fidName) (get prioName) (get dropName)
    ((get portsName).map fun buff => ((parseMask buff 0).2.toNat : Int)) rtuVlans

/-- The loop, over the VLANs that are left; `none` is an error. -/
def readVlanItems (libwrCfg : List CfgItem) : List Nat → List RtuVlans → Option (List RtuVlans)
  | [], rtuVlans => some rtuVlans
  | vlan :: rest, rtuVlans =>
    (readVlanItem libwrCfg vlan rtuVlans).bind (readVlanItems libwrCfg rest)

def readDotConfigVlans (libwrCfg : List CfgItem) (vlanMin vlanMax : Nat)
    (rtuVlans : List RtuVlans) : Option (List RtuVlans) :=
  readVlanItems libwrCfg (List.range' vlanMin (vlanMax + 1 - vlanMin)) rtuVlans

/-! ### Well-formed lists -/

/-- `piece` is an item `N` or `N-M`, in decimal. -/
def Denotes (piece : List Char) (n m : Nat) : Prop :=
  (1 ≤ n ∧ n ≤ m ∧ m ≤ nports) ∧
    (n = m ∧ piece = Nat.toDigits 10 n ∨
      piece = Nat.toDigits 10 n ++ '-' :: Nat.toDigits 10 m)

/-- Every piece between the separators is an item. -/
def PortList (arg : List Char) : Prop :=
  ∀ piece ∈ arg.splitOnP isSeparator, ∃ n m, Denotes piece n m

/-- The ports of the items; port `n` of an item is bit `n - 1`. -/
def Listed (arg : List Char) (p : Nat) : Prop :=
  ∃ piece ∈ arg.splitOnP isSeparator, ∃ n m, Denotes piece n m ∧ n ≤ p + 1 ∧ p + 1 ≤ m

/-- `parse_mask` accepts exactly the well-formed lists, and makes the mask of their ports. -/
def MaskRight (arg : List Char) : Prop :=
  ((parseMask arg 0).1 = 0 ↔ PortList arg) ∧
    (PortList arg → ∀ p, (parseMask arg 0).2.getLsbD p = true ↔ Listed arg p)

/-- The ports that the file has for some VLAN in the range do not parse. -/
def PortsRefused (libwrCfg : List CfgItem) (vlanMin vlanMax : Nat) : Prop :=
  ∃ vlan, vlanMin ≤ vlan ∧ vlan ≤ vlanMax ∧
    ∃ arg, libwrCfgGet2 libwrCfg (vlanKey vlan) portsName = some arg ∧ (parseMask arg 0).1 ≠ 0

/-! ### What is accepted -/

/-- `t` begins with the number of a port. Behind it stands a minus sign and a port that is not
smaller, and nothing else; or what stands behind it is not a minus sign and a number. -/
def Legible (t : List Char) : Prop :=
  ∃ n tail, strtol t = (n, tail) ∧ tail ≠ t ∧ 1 ≤ n ∧
    (n ≤ nports ∧ (∀ upper, tail = '-' :: upper → (strtol upper).2 = upper) ∨
      ∃ upper m, tail = '-' :: upper ∧ strtol upper = (m, []) ∧ upper ≠ [] ∧ n ≤ m ∧ m ≤ nports)

def LegibleList (arg : List Char) : Prop := ∀ t ∈ tokens arg, Legible t

/-- A parameter other than the ports is refused. -/
def OthersRefused (libwrCfg : List CfgItem) (vlan : Nat) : Prop :=
  let get := libwrCfgGet2 libwrCfg (vlanKey vlan)
  (get fidName).isSome ∧ fidParam (get fidName) < 0 ∨
    (get prioName).isSome ∧ prioParam (get prioName) < rtuPrioDisable ∨
    dropParam (get dropName) = none

/-! ### The mask -/

private theorem orPorts_getLsbD (p1 count p : Nat) (pmask : Word) (small : p1 + count ≤ 32) :
    ((List.range' p1 count).foldl (fun pmask p => pmask ||| 1#32 <<< p) pmask).getLsbD p = true ↔
      pmask.getLsbD p = true ∨ p1 ≤ p ∧ p < p1 + count := by
  induction count with
  | zero =>
    have outside : ¬(p1 ≤ p ∧ p < p1 + 0) := by omega
    simp only [List.range'_zero, List.foldl_nil, outside, or_false]
  | succ count ih =>
    rw [List.range'_1_concat, List.foldl_append, List.foldl_cons, List.foldl_nil,
      BitVec.getLsbD_or, Bool.or_eq_true, ih (by omega), BitVec.shiftLeft_eq_mul_twoPow,
      BitVec.one_mul, BitVec.getLsbD_twoPow, Bool.and_eq_true, decide_eq_true_eq,
      decide_eq_true_eq, or_assoc]
    refine or_congr_right ?_
    omega

private theorem portBits_getLsbD (p1 p2 p : Nat) (ordered : p1 ≤ p2) (small : p2 < 32) :
    (portBits p1 p2).getLsbD p = true ↔ p1 ≤ p ∧ p ≤ p2 := by
  have zeros : (0 : Word).getLsbD p = false := BitVec.getLsbD_zero
  rw [portBits, orPorts_getLsbD p1 _ p 0 (by omega), zeros]
  simp only [Bool.false_eq_true, false_or]
  omega

/-- Whatever is parsed, the mask has no bits but those of the ports. -/
theorem parseTokens_inside (ts : List (List Char)) (pmask : Word)
    (inside : ∀ p, pmask.getLsbD p = true → p < nports) :
    ∀ p, (parseTokens ts pmask).2.getLsbD p = true → p < nports := by
  induction ts generalizing pmask with
  | nil => exact inside
  | cons s rest ih =>
    rw [parseTokens]
    split
    next => exact inside
    next p1 p2 _ =>
      dsimp only
      split
      next => exact inside
      next range =>
        apply ih
        intro p set
        rw [BitVec.getLsbD_or, Bool.or_eq_true] at set
        have ports : nports = 18 := rfl
        rcases set with earlier | here
        · exact inside p earlier
        · rw [portBits_getLsbD _ _ p (by omega) (by omega)] at here
          omega

private theorem parseMask_le (arg : List Char) :
    ((parseMask arg 0).2.toNat : Int) ≤ rtuPmaskMax := by
  have inside : ∀ p, (parseMask arg 0).2.getLsbD p = true → p < nports :=
    parseTokens_inside (tokens arg) 0 fun p set => by simp at set
  have short : (parseMask arg 0).2.toNat < 2 ^ 18 := by
    apply Nat.lt_pow_two_of_testBit
    intro p beyond
    by_contra set
    exact absurd (inside p (Bool.eq_true_of_not_eq_false set)) (Nat.not_lt.mpr beyond)
  have most : rtuPmaskMax = 2 ^ 18 - 1 := rfl
  omega

/-! ### Well-formed items -/

/-- A numeral ends at a minus sign, and at the end of the item. -/
theorem strtol_numeral (n : Nat) (positive : 1 ≤ n) (port : n ≤ nports) :
    strtol (Nat.toDigits 10 n) = ((n : Int), []) ∧
      ∀ upper, strtol (Nat.toDigits 10 n ++ '-' :: upper) = ((n : Int), '-' :: upper) := by
  have most : n ≤ 18 := port
  interval_cases n
  all_goals exact ⟨by decide, fun upper => rfl⟩

private theorem scanRange_denotes {piece : List Char} {n m : Nat} (item : Denotes piece n m) :
    scanRange piece = some ((n : Int), (m : Int)) := by
  obtain ⟨⟨positive, ordered, port⟩, text⟩ := item
  have lower := strtol_numeral n positive (ordered.trans port)
  have upper := strtol_numeral m (positive.trans ordered) port
  have some_digit (k : Nat) : Nat.toDigits 10 k ≠ [] := Nat.toDigits_ne_nil
  rcases text with ⟨rfl, rfl⟩ | rfl
  · simp [scanRange, lower.1, (some_digit n).symm]
  · have shorter : '-' :: Nat.toDigits 10 m ≠ Nat.toDigits 10 n ++ '-' :: Nat.toDigits 10 m := by
      intro same
      have lengths := congrArg List.length same
      have digit := List.length_pos_iff.mpr (some_digit n)
      rw [List.length_append] at lengths
      omega
    simp [scanRange, lower.2, upper.1, shorter, (some_digit m).symm]

private theorem parseTokens_denote (ts : List (List Char)) (pmask : Word)
    (items : ∀ piece ∈ ts, ∃ n m, Denotes piece n m) :
    (parseTokens ts pmask).1 = 0 ∧ ∀ p, (parseTokens ts pmask).2.getLsbD p = true ↔
      pmask.getLsbD p = true ∨ ∃ piece ∈ ts, ∃ n m, Denotes piece n m ∧ n ≤ p + 1 ∧ p + 1 ≤ m := by
  induction ts generalizing pmask with
  | nil => exact ⟨rfl, fun p => by simp [parseTokens]⟩
  | cons s rest ih =>
    obtain ⟨n, m, item⟩ := items s List.mem_cons_self
    have range := item.1
    have ports : nports = 18 := rfl
    have scanned := scanRange_denotes item
    -- the numbers of an item are what the scan finds, so they are the only ones
    have only {n' m' : Nat} (other : Denotes s n' m') : n' = n ∧ m' = m := by
      have same := scanned.symm.trans (scanRange_denotes other)
      simp only [Option.some.injEq, Prod.mk.injEq, Nat.cast_inj] at same
      exact ⟨same.1.symm, same.2.symm⟩
    obtain ⟨accepted, mask⟩ := ih (pmask ||| portBits ((n : Int) - 1).toNat ((m : Int) - 1).toNat)
      fun piece member => items piece (List.mem_cons_of_mem s member)
    simp only [parseTokens, scanned]
    rw [if_neg (by omega)]
    refine ⟨accepted, fun p => ?_⟩
    rw [mask, BitVec.getLsbD_or, Bool.or_eq_true,
      portBits_getLsbD _ _ p (by omega) (by omega), List.exists_mem_cons_iff, or_assoc]
    refine or_congr_right (or_congr_left ⟨fun covered => ?_, ?_⟩)
    · exact ⟨n, m, item, by omega, by omega⟩
    · rintro ⟨n', m', other, low, high⟩
      obtain ⟨rfl, rfl⟩ := only other
      omega

private theorem tokens_eq {arg : List Char} (list : PortList arg) :
    tokens arg = arg.splitOnP isSeparator := by
  refine List.filter_eq_self.mpr fun piece member => ?_
  obtain ⟨n, m, -, text⟩ := list piece member
  have some_digit : Nat.toDigits 10 n ≠ [] := Nat.toDigits_ne_nil
  rcases text with ⟨-, rfl⟩ | rfl
  · simp
  · simp

private theorem parseMask_portList {arg : List Char} (list : PortList arg) :
    (parseMask arg 0).1 = 0 ∧
      ∀ p, (parseMask arg 0).2.getLsbD p = true ↔ Listed arg p := by
  obtain ⟨accepted, mask⟩ := parseTokens_denote (arg.splitOnP isSeparator) 0 list
  rw [parseMask, tokens_eq list]
  refine ⟨accepted, fun p => ?_⟩
  rw [mask]
  simp [Listed]

/-! ### All lists -/

private theorem scanRange_iff (t : List Char) (n m : Int) :
    scanRange t = some (n, m) ↔ ∃ tail, strtol t = (n, tail) ∧ tail ≠ t ∧
      (n = m ∧ (∀ upper, tail = '-' :: upper → (strtol upper).2 = upper) ∨
        ∃ upper, tail = '-' :: upper ∧ strtol upper = (m, []) ∧ upper ≠ []) := by
  rcases h : strtol t with ⟨p1, tail⟩
  have read (P : List Char → Prop) :
      (∃ tail', (p1, tail) = (n, tail') ∧ P tail') ↔ p1 = n ∧ P tail := by
    simp only [Prod.mk.injEq]
    constructor
    · rintro ⟨_, ⟨same, rfl⟩, holds⟩
      exact ⟨same, holds⟩
    · rintro ⟨same, holds⟩
      exact ⟨tail, ⟨same, rfl⟩, holds⟩
  rw [scanRange, h, read]
  by_cases number : tail = t
  · simp [number]
  · simp only [number, if_false, ne_eq, not_false_eq_true, true_and]
    split
    next upper =>
      -- a minus sign: what counts is whether there is a number behind it
      rcases second : strtol upper with ⟨p2, rest⟩
      simp only [List.cons.injEq, true_and, forall_eq', exists_eq_left', second, Prod.mk.injEq]
      by_cases single : rest = upper
      · subst single
        simp only [if_true, Option.some.injEq, Prod.mk.injEq, and_true]
        constructor
        · rintro ⟨rfl, same⟩
          exact ⟨rfl, .inl same⟩
        · rintro ⟨rfl, same | ⟨⟨-, empty⟩, digits⟩⟩
          · exact ⟨rfl, same⟩
          · exact absurd empty digits
      · simp only [single, if_false, and_false, false_or]
        by_cases done : rest = []
        · have digits : upper ≠ [] := fun empty => single (done.trans empty.symm)
          simp [done, digits]
        · simp [done]
    next other =>
      have no_minus (upper : List Char) : tail ≠ '-' :: upper := other upper
      simp only [Option.some.injEq, Prod.mk.injEq, no_minus, false_and, exists_false, or_false,
        false_imp_iff, implies_true, and_true]
      constructor
      · rintro ⟨rfl, same⟩
        exact ⟨rfl, same⟩
      · rintro ⟨rfl, same⟩
        exact ⟨rfl, same⟩

private theorem legible_iff (t : List Char) :
    Legible t ↔ ∃ n m, scanRange t = some (n, m) ∧ 1 ≤ n ∧ n ≤ m ∧ m ≤ nports := by
  simp only [scanRange_iff]
  constructor
  · rintro ⟨n, tail, scanned, number, positive, ⟨port, single⟩ | ⟨upper, m, rest⟩⟩
    · exact ⟨n, n, ⟨tail, scanned, number, .inl ⟨rfl, single⟩⟩, positive, le_rfl, port⟩
    · obtain ⟨minus, read, digits, ordered, port⟩ := rest
      exact ⟨n, m, ⟨tail, scanned, number, .inr ⟨upper, minus, read, digits⟩⟩, positive, ordered,
        port⟩
  · rintro ⟨n, m, ⟨tail, scanned, number, ⟨rfl, single⟩ | ⟨upper, minus, read, digits⟩⟩, range⟩
    · exact ⟨n, tail, scanned, number, range.1, .inl ⟨range.2.2, single⟩⟩
    · exact ⟨n, tail, scanned, number, range.1, .inr ⟨upper, m, minus, read, digits, range.2⟩⟩

private theorem parseTokens_iff (ts : List (List Char)) (pmask : Word) :
    (parseTokens ts pmask).1 = 0 ↔ ∀ t ∈ ts, Legible t := by
  induction ts generalizing pmask with
  | nil => simp [parseTokens]
  | cons t rest ih =>
    rw [List.forall_mem_cons, legible_iff, parseTokens]
    cases scanned : scanRange t with
    | none => simp
    | some range =>
      obtain ⟨p1, p2⟩ := range
      dsimp only
      -- the bounds are checked after the scan, and the first bad token ends it
      by_cases refused : p1 - 1 > p2 - 1 ∨ p1 - 1 < 0 ∨ p2 - 1 ≥ nports
      · rw [if_pos refused]
        constructor
        · intro error
          exact absurd error (show (-1 : Int) ≠ 0 by decide)
        · rintro ⟨⟨n, m, same, range⟩, -⟩
          simp only [Option.some.injEq, Prod.mk.injEq] at same
          omega
      · rw [if_neg refused, ih, iff_and_self]
        exact fun _ => ⟨p1, p2, rfl, by omega, by omega, by omega⟩

private theorem parseMask_iff (arg : List Char) (pmask : Word) :
    (parseMask arg pmask).1 = 0 ↔ LegibleList arg := parseTokens_iff (tokens arg) pmask

private theorem maskRight_iff (arg : List Char) :
    MaskRight arg ↔ PortList arg ∨ ¬LegibleList arg := by
  rw [MaskRight, parseMask_iff]
  by_cases list : PortList arg
  · obtain ⟨accepted, mask⟩ := parseMask_portList list
    simp only [list, (parseMask_iff arg 0).mp accepted, mask, iff_self, implies_true, and_self,
      true_or]
  · simp [list]

/-! ### The configuration file -/

private theorem readVlanItem_none_iff (libwrCfg : List CfgItem) (vlan : Nat)
    (rtuVlans : List RtuVlans) :
    readVlanItem libwrCfg vlan rtuVlans = none ↔ OthersRefused libwrCfg vlan := by
  have mask (ports : Option (List Char)) :
      ¬(ports.map (fun buff => ((parseMask buff 0).2.toNat : Int))).getD 0 < rtuPmaskMin ∧
        ¬(ports.map (fun buff => ((parseMask buff 0).2.toNat : Int))).getD 0 > rtuPmaskMax := by
    have least : rtuPmaskMin = 0 := rfl
    cases ports with
    | none => decide
    | some arg =>
      have most := parseMask_le arg
      simp only [Option.map_some, Option.getD_some]
      omega
  simp only [readVlanItem, readDotConfigVlan, mask, or_self, and_false, or_false, OthersRefused]
  cases dropParam (libwrCfgGet2 libwrCfg (vlanKey vlan) dropName) with
  | none => simp
  | some drop =>
    simp only [reduceCtorEq, or_false]
    split_ifs with refused <;> simp [refused]

private theorem readVlanItems_none_iff (libwrCfg : List CfgItem) (vlans : List Nat)
    (rtuVlans : List RtuVlans) :
    readVlanItems libwrCfg vlans rtuVlans = none ↔ ∃ vlan ∈ vlans, OthersRefused libwrCfg vlan := by
  induction vlans generalizing rtuVlans with
  | nil => simp [readVlanItems]
  | cons vlan rest ih =>
    rw [readVlanItems, List.exists_mem_cons_iff, ← readVlanItem_none_iff libwrCfg vlan rtuVlans]
    cases readVlanItem libwrCfg vlan rtuVlans with
    | none => simp
    | some next => simp [ih]

private theorem readDotConfigVlans_none_iff (libwrCfg : List CfgItem) (vlanMin vlanMax : Nat)
    (rtuVlans : List RtuVlans) :
    readDotConfigVlans libwrCfg vlanMin vlanMax rtuVlans = none ↔
      ∃ vlan, (vlanMin ≤ vlan ∧ vlan ≤ vlanMax) ∧ OthersRefused libwrCfg vlan := by
  rw [readDotConfigVlans, readVlanItems_none_iff]
  refine exists_congr fun vlan => and_congr_left fun _ => ?_
  rw [List.mem_range'_1]
  omega

/-- `parse_mask` is right about a list that is well formed, and about one that it refuses. The
file is right about its lists if it has none that does not parse, or if it has another error. -/
theorem port_lists_iff (arg : List Char) (libwrCfg : List CfgItem) (vlanMin vlanMax : Nat)
    (rtuVlans : List RtuVlans) :
    (MaskRight arg ↔ PortList arg ∨ ¬LegibleList arg) ∧
    ((PortsRefused libwrCfg vlanMin vlanMax →
        readDotConfigVlans libwrCfg vlanMin vlanMax rtuVlans = none) ↔
      (∀ vlan, vlanMin ≤ vlan → vlan ≤ vlanMax →
        ∀ arg ∈ libwrCfgGet2 libwrCfg (vlanKey vlan) portsName, LegibleList arg) ∨
      ∃ vlan, (vlanMin ≤ vlan ∧ vlan ≤ vlanMax) ∧ OthersRefused libwrCfg vlan) := by
  refine ⟨maskRight_iff arg, ?_⟩
  rw [readDotConfigVlans_none_iff, imp_iff_not_or]
  refine or_congr_left ?_
  rw [PortsRefused]
  push Not
  simp only [parseMask_iff, Option.mem_def]

private theorem denotes_chars {piece : List Char} {n m : Nat} (item : Denotes piece n m) :
    ∀ c ∈ piece, c.isDigit ∨ c = '-' := by
  intro c member
  rcases item.2 with ⟨-, rfl⟩ | rfl
  · exact .inl (Nat.isDigit_of_mem_toDigits (by decide) (by decide) member)
  · rcases List.mem_append.mp member with lower | upper
    · exact .inl (Nat.isDigit_of_mem_toDigits (by decide) (by decide) lower)
    · rcases List.mem_cons.mp upper with minus | digit
      · exact .inr minus
      · exact .inl (Nat.isDigit_of_mem_toDigits (by decide) (by decide) digit)

/-- A file that has `ports=2;3x;19` for VLAN 5. -/
def faultyPorts : List CfgItem :=
  [⟨vlanKey 5, [], [(portsName, some ['2', ';', '3', 'x', ';', '1', '9'])]⟩]

/-- `3x` is read as 3, and the file gives VLAN 5 the ports before the one that does not exist. -/
theorem ports_misread :
    ¬MaskRight ['3', 'x'] ∧
    PortsRefused faultyPorts 5 5 ∧
    (readDotConfigVlans faultyPorts 5 5 []).map (·.map fun cur => (cur.vid, cur.pmask)) =
      some [(5, 6)] := by
  have misread : ¬MaskRight ['3', 'x'] := by
    intro right
    have list : PortList ['3', 'x'] := right.1.mp (by decide)
    obtain ⟨n, m, item⟩ := list ['3', 'x'] (by decide)
    exact absurd (denotes_chars item 'x' (by decide)) (by decide)
  have refused : PortsRefused faultyPorts 5 5 :=
    ⟨5, le_rfl, le_rfl, ['2', ';', '3', 'x', ';', '1', '9'], by decide, by decide⟩
  exact ⟨misread, refused, by decide⟩

end WrSwitch.Tools
