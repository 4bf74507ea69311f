import Mathlib.Logic.Function.Basic
import WrSwitch.Machine.Run
import WrSwitch.Machine.Text

/-!
# The configuration store of the calibration

`config-lpcalib.c`: a file becomes a list of comments and pairs of a key and a value, which is
searched, edited and written again.
-/
namespace WrSwitch.Libwr

open Machine

abbrev Word := BitVec 32

/-- `struct key_value`; the list is linked through its order. -/
structure KeyValue where
  comment : Option (List Char)
  key : Option (List Char)
  value : Option (List Char)
deriving DecidableEq, Repr

/-- `struct config_file`. The `next` of the last node is `NULL`, or else what `malloc` left there. -/
structure ConfigFile where
  nodes : List KeyValue
  ended : Bool
deriving DecidableEq, Repr

/-! ### The operations

`none` stands for reading through a pointer that was never set, or through `NULL`. -/

/-- `strcasecmp` gives 0. -/
def sameKey (key key' : List Char) : Bool := key.map Char.toLower = key'.map Char.toLower

def KeyValue.matches (kv : KeyValue) (key : List Char) : Bool :=
  match kv.key with
  | some key' => sameKey key key'
  | none => false

/-- `cfg_find_key`: the position of the node. -/
def cfgFindKey (cfg : ConfigFile) (key : List Char) (create : Bool) :
    Option (Option Nat × ConfigFile) :=
  match cfg.nodes.findIdx? fun kv => kv.matches key with
  | some i => some (some i, cfg)
  | none =>
    -- the search runs into the end of the list
    if cfg.ended = false then none
    else if create = false then some (none, cfg)
    else some (some cfg.nodes.length, { cfg with nodes := cfg.nodes ++ [⟨none, some key, none⟩] })

def setValue (cfg : ConfigFile) (i : Nat) (value : List Char) : ConfigFile :=
  { cfg with nodes := cfg.nodes.modify i fun kv => { kv with value := some value } }

def valueAt (cfg : ConfigFile) (i : Nat) : Option (List Char) :=
  cfg.nodes[i]?.bind KeyValue.value

/-- `long` has 32 bits on the switch. -/
def atoi (s : List Char) : Word :=
  BitVec.ofInt 32 (max (-2147483648) (min 2147483647 (decimalValue s)))

/-- `cfg_get_int`; without a result it returns 0. -/
def cfgGetInt (cfg : ConfigFile) (key : List Char) : Option (Option Word) :=
  match cfgFindKey cfg key false with
  | none => none
  | some (none, _) => some none
  | some (some i, _) => (valueAt cfg i).map fun value => some (atoi value)

/-- `cfg_get_str`, which creates a key that it does not find. -/
def cfgGetStr (cfg : ConfigFile) (key : List Char) : Option (Option (List Char) × ConfigFile) :=
  match cfgFindKey cfg key true with
  | none => none
  | some (none, cfg) => some (none, cfg)
  | some (some i, cfg) => some (valueAt cfg i, cfg)

/-- `cfg_set_str` -/
def cfgSetStr (cfg : ConfigFile) (key value : List Char) : Option ConfigFile :=
  match cfgFindKey cfg key true with
  | none => none
  | some (none, cfg) => some cfg
  | some (some i, cfg) => some (setValue cfg i value)

/-- `cfg_set_int` -/
def cfgSetInt (cfg : ConfigFile) (key : List Char) (value : Word) : Option ConfigFile :=
  cfgSetStr cfg key (decimal value.toInt)

/-- What `printf` makes of a string that is `NULL`. -/
def nullText : List Char := ['(', 'n', 'u', 'l', 'l', ')']

/-- The line of a node. -/
def KeyValue.text (kv : KeyValue) : List Char :=
  match kv.comment with
  | some comment => comment
  | none => kv.key.getD nullText ++ '=' :: kv.value.getD nullText

/-- `cfg_save`: the contents of the file. -/
def cfgSave (cfg : ConfigFile) : Option (List Char) :=
  if cfg.ended then some (unlines (cfg.nodes.map KeyValue.text)) else none

/-- The characters that end a string in the buffer. -/
def stops (c : Char) : Bool := c = '\n' ∨ c = '\r' ∨ c.toNat = 0

def cutLine (line : List Char) : List Char := line.takeWhile fun c => !stops c

/-- The node that is made of a line. -/
def parseLine (str : List Char) : KeyValue :=
  if '=' ∉ str ∨ str = [] ∨ str.head? = some '#' then ⟨some str, none, none⟩
  else ⟨none, some (str.takeWhile (· ≠ '=')), some ((str.dropWhile (· ≠ '=')).drop 1)⟩

/-- The loop of `cfg_load`. A comment's `next` is not set: `stale` tells whether the memory for
the node with this number held something else than `NULL`. -/
def loadLines (stale : Nat → Bool) : List (List Char) → ConfigFile → Option ConfigFile
  | [], cfg => some cfg
  | line :: lines, cfg =>
    let kv := parseLine (cutLine line)
    let ended := kv.comment.isNone || !stale cfg.nodes.length
    if cfg.nodes = [] ∨ cfg.ended then loadLines stale lines ⟨cfg.nodes ++ [kv], ended⟩ else none

/-- The part of `char str[1024]` that `fgets` fills. -/
def strRoom : Nat := 1023

/-- `cfg_load` of a file with these contents. -/
def cfgLoad (stale : Nat → Bool) (file : List Char) : Option ConfigFile :=
  loadLines stale (readLines strRoom file) ⟨[], true⟩

/-! ### Lines -/

private theorem parseLine_pair {key : List Char} (plain : '=' ∉ key) (start : key.head? ≠ some '#')
    (value : List Char) : parseLine (key ++ '=' :: value) = ⟨none, some key, some value⟩ := by
  obtain ⟨taken, dropped⟩ := cut_at plain value
  have pair : ¬('=' ∉ key ++ '=' :: value ∨ key ++ '=' :: value = [] ∨
      (key ++ '=' :: value).head? = some '#') := by
    rintro (no | empty | comment)
    · exact no (List.mem_append_right _ List.mem_cons_self)
    · exact absurd empty (by simp)
    · cases key with
      | nil => cases comment
      | cons c key => exact start comment
  rw [parseLine, if_neg pair, taken, dropped]
  rfl

/-- A line is a comment, or a key without `=` and `#` in front, and a value. -/
theorem parseLine_cases (str : List Char) :
    parseLine str = ⟨some str, none, none⟩ ∨
      ∃ key value, '=' ∉ key ∧ key.head? ≠ some '#' ∧ str = key ++ '=' :: value ∧
        parseLine str = ⟨none, some key, some value⟩ := by
  by_cases comment : '=' ∉ str ∨ str = [] ∨ str.head? = some '#'
  · exact .inl (if_pos comment)
  · right
    rw [not_or, not_or, not_not] at comment
    obtain ⟨key, value, rfl, plain⟩ := List.eq_append_cons_of_mem comment.1
    have start : key.head? ≠ some '#' := fun hash => comment.2.2 (by
      rw [List.head?_append, hash]
      rfl)
    exact ⟨key, value, plain, start, rfl, parseLine_pair plain start value⟩

/-- A line is printed as it was read. -/
theorem parseLine_text (str : List Char) : (parseLine str).text = str := by
  obtain comment | ⟨key, value, _, _, rfl, pair⟩ := parseLine_cases str
  · rw [comment]
    rfl
  · rw [pair]
    rfl

/-- No character ends the string. -/
def TextOk (s : List Char) : Prop := ∀ c ∈ s, stops c = false

def KeyOk (key : List Char) : Prop := TextOk key ∧ '=' ∉ key ∧ key.head? ≠ some '#'

instance (s : List Char) : Decidable (TextOk s) :=
  List.decidableBAll (fun c => stops c = false) s

instance (key : List Char) : Decidable (KeyOk key) :=
  inferInstanceAs (Decidable (TextOk key ∧ '=' ∉ key ∧ key.head? ≠ some '#'))

/-- What is left of a line has no end of line in it. -/
theorem cutLine_ok (line : List Char) : TextOk (cutLine line) := fun c member => by
  have kept := List.mem_takeWhile_imp member
  rwa [Bool.not_eq_true'] at kept

private theorem cutLine_line {text : List Char} (ok : TextOk text) :
    cutLine (text ++ ['\n']) = text :=
  (takeWhile_append_cons (fun c member => by rw [ok c member]; rfl) (by decide) []).1

private theorem newline_not_mem {text : List Char} (ok : TextOk text) : '\n' ∉ text := fun member =>
  absurd (ok _ member) (by decide)

/-- A node that comes out of a line. -/
def KeyValue.Clean (kv : KeyValue) : Prop := TextOk kv.text ∧ parseLine kv.text = kv

theorem parseLine_clean {str : List Char} (ok : TextOk str) : (parseLine str).Clean := by
  rw [KeyValue.Clean, parseLine_text]
  exact ⟨ok, rfl⟩

/-- Clean nodes with a key. -/
theorem clean_pair_iff (key value : List Char) :
    KeyValue.Clean ⟨none, some key, some value⟩ ↔ KeyOk key ∧ TextOk value := by
  have text : KeyValue.text ⟨none, some key, some value⟩ = key ++ '=' :: value := rfl
  have parts : TextOk (key ++ '=' :: value) ↔ TextOk key ∧ TextOk value := by
    simp only [TextOk, List.forall_mem_append, List.forall_mem_cons]
    exact and_congr_right fun _ => and_iff_right (by decide)
  rw [KeyValue.Clean, text, parts, KeyOk]
  constructor
  · rintro ⟨⟨keyOk, valueOk⟩, parsed⟩
    obtain comment | ⟨key', value', plain, start, _, pair⟩ := parseLine_cases (key ++ '=' :: value)
    · rw [comment] at parsed
      cases parsed
    · rw [pair] at parsed
      cases parsed
      exact ⟨⟨keyOk, plain, start⟩, valueOk⟩
  · rintro ⟨⟨keyOk, plain, start⟩, valueOk⟩
    exact ⟨⟨keyOk, valueOk⟩, parseLine_pair plain start value⟩

/-- A clean node is a comment or a key with a value. -/
theorem KeyValue.Clean.cases {kv : KeyValue} (clean : kv.Clean) :
    (∃ comment, kv = ⟨some comment, none, none⟩) ∨
      ∃ key value, kv = ⟨none, some key, some value⟩ := by
  obtain comment | ⟨key, value, _, _, _, pair⟩ := parseLine_cases kv.text
  · exact .inl ⟨_, clean.2.symm.trans comment⟩
  · exact .inr ⟨key, value, clean.2.symm.trans pair⟩

/-! ### Loading what was saved -/

/-- After a node whose `next` is not `NULL` the list does not end well. -/
theorem loadLines_open (stale : Nat → Bool) (lines : List (List Char)) {nodes : List KeyValue}
    (some : nodes ≠ []) (cfg : ConfigFile) (ended : cfg.ended = true) :
    loadLines stale lines ⟨nodes, false⟩ ≠ Option.some cfg := by
  cases lines with
  | nil =>
    rintro same
    cases same
    cases ended
  | cons line lines =>
    rw [loadLines, if_neg]
    · exact nofun
    · rintro (empty | closed)
      · exact some empty
      · cases closed

def lineNode (line : List Char) : KeyValue := parseLine (cutLine line)

/-- No comment among the nodes from this number on got memory with an old `next`. -/
def FreshComments (stale : Nat → Bool) (first : Nat) (nodes : List KeyValue) : Prop :=
  ∀ i kv, nodes[i]? = some kv → kv.comment.isSome → stale (first + i) = false

theorem freshComments_cons {stale : Nat → Bool} {first : Nat} {kv : KeyValue}
    {nodes : List KeyValue} : FreshComments stale first (kv :: nodes) ↔
      (kv.comment.isSome → stale first = false) ∧ FreshComments stale (first + 1) nodes := by
  constructor
  · intro fresh
    refine ⟨fresh 0 kv rfl, fun i kv' at_i comment => ?_⟩
    rw [Nat.add_right_comm]
    exact fresh (i + 1) kv' at_i comment
  · rintro ⟨own, others⟩ i kv' at_i comment
    cases i with
    | zero =>
      cases at_i
      exact own comment
    | succ i =>
      rw [← Nat.add_assoc, Nat.add_right_comm]
      exact others i kv' at_i comment

private theorem loadLines_iff (stale : Nat → Bool) (lines : List (List Char))
    (nodes : List KeyValue) (cfg : ConfigFile) (ended : cfg.ended = true) :
    loadLines stale lines ⟨nodes, true⟩ = some cfg ↔
      cfg.nodes = nodes ++ lines.map lineNode ∧
        FreshComments stale nodes.length (lines.map lineNode) := by
  obtain ⟨all, closed⟩ := cfg
  cases ended
  induction lines generalizing nodes with
  | nil =>
    rw [loadLines, Option.some.injEq, ConfigFile.mk.injEq, List.map_nil, List.append_nil]
    exact ⟨fun ⟨same, _⟩ => ⟨same.symm, fun i kv at_i => by cases at_i⟩,
      fun ⟨same, _⟩ => ⟨same.symm, rfl⟩⟩
  | cons line lines ih =>
    rw [loadLines, if_pos (.inr rfl), ← lineNode, List.map_cons, freshComments_cons]
    have length : (nodes ++ [lineNode line]).length = nodes.length + 1 := by simp
    -- a comment node is fresh, or its place in memory was used before
    cases closed : (lineNode line).comment.isNone || !stale nodes.length with
    | true =>
      have own : (lineNode line).comment.isSome → stale nodes.length = false := by
        cases comment : (lineNode line).comment <;> simp_all
      rw [ih, length, List.append_assoc, List.singleton_append]
      exact and_congr_right fun _ => (and_iff_right own).symm
    | false =>
      have bad : ¬((lineNode line).comment.isSome → stale nodes.length = false) := by
        cases comment : (lineNode line).comment <;> simp_all
      refine iff_of_false ?_ fun ⟨_, own, _⟩ => bad own
      exact loadLines_open stale lines (by simp) _ rfl

/-- A file is loaded line by line, if the memory for its comments is fresh. -/
theorem cfgLoad_iff (stale : Nat → Bool) (file : List Char) (cfg : ConfigFile)
    (ended : cfg.ended = true) :
    cfgLoad stale file = some cfg ↔ cfg.nodes = (readLines strRoom file).map lineNode ∧
      FreshComments stale 0 ((readLines strRoom file).map lineNode) :=
  loadLines_iff stale (readLines strRoom file) [] cfg ended

/-- Saving and loading gives the same comments, keys and values in the same order. -/
def RoundTrip (stale : Nat → Bool) (cfg : ConfigFile) : Prop :=
  ∃ file, cfgSave cfg = some file ∧ cfgLoad stale file = some cfg

def KeyValue.Fits (kv : KeyValue) : Prop := kv.text.length < strRoom

/-- A configuration survives the trip if its lines fit and read the same. -/
theorem roundTrip_iff (stale : Nat → Bool) (cfg : ConfigFile) :
    RoundTrip stale cfg ↔ cfg.ended = true ∧ (∀ kv ∈ cfg.nodes, kv.Clean ∧ kv.Fits) ∧
      FreshComments stale 0 cfg.nodes := by
  have room : 0 < strRoom := by decide
  constructor
  · rintro ⟨file, saved, loaded⟩
    rw [cfgSave] at saved
    split at saved
    next ended =>
      cases saved
      obtain ⟨nodes, fresh⟩ := (cfgLoad_iff stale _ cfg ended).mp loaded
      rw [← nodes] at fresh
      -- what was read back is clean and short
      have clean : ∀ kv ∈ cfg.nodes, kv.Clean ∧ kv.text.length ≤ strRoom := by
        intro kv member
        rw [nodes] at member
        obtain ⟨line, among, rfl⟩ := List.mem_map.mp member
        refine ⟨parseLine_clean (cutLine_ok line), ?_⟩
        rw [lineNode, parseLine_text]
        exact (List.takeWhile_prefix _).length_le.trans (readLines_length_le strRoom _ line among)
      refine ⟨ended, fun kv member => ⟨(clean kv member).1, ?_⟩, fresh⟩
      obtain ⟨_, tight⟩ := @readLines_unlines_length _ room (cfg.nodes.map KeyValue.text)
        (fun text member => by
          obtain ⟨kv, among, rfl⟩ := List.mem_map.mp member
          exact ⟨newline_not_mem (clean kv among).1.1, (clean kv among).2⟩)
      refine tight ?_ _ (List.mem_map_of_mem member)
      have count := congrArg List.length nodes
      rw [List.length_map] at count ⊢
      exact count.symm
    next => cases saved
  · rintro ⟨ended, clean, fresh⟩
    refine ⟨unlines (cfg.nodes.map KeyValue.text), if_pos ended, ?_⟩
    have lines := @readLines_unlines strRoom (cfg.nodes.map KeyValue.text)
      (fun text member => by
        obtain ⟨kv, among, rfl⟩ := List.mem_map.mp member
        exact ⟨newline_not_mem (clean kv among).1.1, (clean kv among).2⟩)
    -- each line is parsed to the node it was written from
    have same : (readLines strRoom (unlines (cfg.nodes.map KeyValue.text))).map lineNode =
        cfg.nodes := by
      rw [lines, List.map_map, List.map_map]
      refine (List.map_congr_left fun kv member => ?_).trans (List.map_id cfg.nodes)
      have ok := (clean kv member).1
      change parseLine (cutLine (kv.text ++ ['\n'])) = kv
      rw [cutLine_line ok.1, ok.2]
    rw [cfgLoad_iff _ _ _ ended, same]
    exact ⟨rfl, fresh⟩

/-! ### What was given -/

/-- The value that counts for each key. -/
abbrev Store := List Char → Option (List Char)

def Store.put (store : Store) (key value : List Char) : Store := fun key' =>
  if sameKey key key' then some value else store key'

/-- The value of the first node with the key. -/
def lookup (nodes : List KeyValue) : Store := fun key =>
  (nodes.find? fun kv => kv.matches key).bind KeyValue.value

/-- The list after a value was set. -/
def setNodes (key value : List Char) : List KeyValue → List KeyValue
  | [] => [⟨none, some key, some value⟩]
  | kv :: nodes =>
    if kv.matches key then { kv with value := some value } :: nodes
    else kv :: setNodes key value nodes

/-- Keys are compared without regard to case. -/
theorem sameKey_iff (key key' : List Char) :
    sameKey key key' = true ↔ key.map Char.toLower = key'.map Char.toLower := decide_eq_true_iff

/-- A node matches a key if it has one that is the same. -/
theorem matches_iff (kv : KeyValue) (key : List Char) :
    kv.matches key = true ↔ ∃ key', kv.key = some key' ∧ sameKey key key' = true := by
  rw [KeyValue.matches]
  cases kv.key <;> simp

/-- The value at the first match is the one that is looked up. -/
theorem valueAt_found {cfg : ConfigFile} {key : List Char} {i : Nat}
    (found : cfg.nodes.findIdx? (fun kv => kv.matches key) = some i) :
    valueAt cfg i = lookup cfg.nodes key := by
  rw [valueAt, lookup, List.find?_eq_bind_findIdx?_getElem?, found]
  rfl

/-- No match, no value. -/
theorem lookup_absent {nodes : List KeyValue} {key : List Char}
    (absent : nodes.findIdx? (fun kv => kv.matches key) = none) : lookup nodes key = none := by
  rw [lookup, List.find?_eq_bind_findIdx?_getElem?, absent]
  rfl

private theorem setNodes_found {nodes : List KeyValue} {key : List Char} {i : Nat}
    (value : List Char) (found : nodes.findIdx? (fun kv => kv.matches key) = some i) :
    setNodes key value nodes = nodes.modify i fun kv => { kv with value := some value } := by
  induction nodes generalizing i with
  | nil => cases found
  | cons kv nodes ih =>
    rw [List.findIdx?_cons] at found
    rw [setNodes]
    split at found
    next own =>
      cases found
      rw [if_pos own]
      rfl
    next other =>
      obtain ⟨j, later, rfl⟩ := Option.map_eq_some_iff.mp found
      rw [if_neg other, ih later]
      rfl

private theorem setNodes_absent {nodes : List KeyValue} {key : List Char} (value : List Char)
    (absent : nodes.findIdx? (fun kv => kv.matches key) = none) :
    setNodes key value nodes = nodes ++ [⟨none, some key, some value⟩] := by
  induction nodes with
  | nil => rfl
  | cons kv nodes ih =>
    rw [List.findIdx?_cons] at absent
    split at absent
    next => cases absent
    next other =>
      rw [setNodes, if_neg other, ih (Option.map_eq_none_iff.mp absent)]
      rfl

private theorem modify_last (nodes : List KeyValue) (kv : KeyValue) (f : KeyValue → KeyValue) :
    (nodes ++ [kv]).modify nodes.length f = nodes ++ [f kv] := by
  induction nodes with
  | nil => rfl
  | cons _ nodes ih => exact congrArg (_ :: ·) ih

/-- Setting a value changes the nodes only. -/
theorem cfgSetStr_eq {cfg : ConfigFile} (ended : cfg.ended = true) (key value : List Char) :
    cfgSetStr cfg key value = some { cfg with nodes := setNodes key value cfg.nodes } := by
  rw [cfgSetStr, cfgFindKey]
  cases found : cfg.nodes.findIdx? fun kv => kv.matches key with
  | some i =>
    rw [setNodes_found value found]
    rfl
  | none =>
    rw [setNodes_absent value found]
    simp [ended, setValue, modify_last]

theorem lookup_cons (kv : KeyValue) (nodes : List KeyValue) (key : List Char) :
    lookup (kv :: nodes) key = if kv.matches key then kv.value else lookup nodes key := by
  simp only [lookup, List.find?_cons]
  split <;> simp_all

/-- Setting a value sets it for all spellings of the key, and for these only. -/
theorem lookup_setNodes (key value : List Char) (nodes : List KeyValue) :
    lookup (setNodes key value nodes) = Store.put (lookup nodes) key value := by
  funext key'
  -- only the spelling of the key in the file may differ
  have spelled {kv : KeyValue} {k : List Char} (own : sameKey key k = true)
      (named : kv.key = some k) : kv.matches key' = sameKey key key' := by
    rw [Bool.eq_iff_iff, matches_iff, sameKey_iff]
    rw [sameKey_iff] at own
    constructor
    · rintro ⟨k', same, matched⟩
      rw [named] at same
      cases same
      exact own.trans ((sameKey_iff _ _).mp matched).symm
    · exact fun same => ⟨k, named, (sameKey_iff _ _).mpr (same.symm.trans own)⟩
  induction nodes with
  | nil =>
    have same := @spelled ⟨none, some key, some value⟩ _ ((sameKey_iff _ _).mpr rfl) rfl
    rw [setNodes, lookup, List.find?_singleton, same, Store.put]
    split <;> rfl
  | cons kv nodes ih =>
    rw [setNodes]
    split
    next own =>
      obtain ⟨k, named, matched⟩ := (matches_iff kv key).mp own
      have old := spelled matched named
      have new := @spelled { kv with value := some value } _ matched named
      rw [lookup_cons, new, Store.put, lookup_cons, old]
      split <;> rfl
    next other =>
      rw [lookup_cons, Store.put, lookup_cons]
      split
      -- the node matches another key
      next matched =>
        have apart : ¬sameKey key key' = true := fun same => other (by
          obtain ⟨k, named, own⟩ := (matches_iff kv key').mp matched
          rw [sameKey_iff] at own same
          exact (matches_iff kv key).mpr ⟨k, named, (sameKey_iff _ _).mpr (same.trans own)⟩)
        rw [if_neg apart]
      next => exact ih

end WrSwitch.Libwr
