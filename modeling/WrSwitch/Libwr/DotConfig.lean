import WrSwitch.Machine.Text

/-!
# The dot-config file

`dot-config.c`: lines of the form `CONFIG_NAME=value` become a list of items, the last one in
front, with the parts of a value such as `a=1,b=2`.
-/
namespace WrSwitch.Libwr

open Machine

/-- `struct cfg_item`; the lists are linked through their order. -/
structure CfgItem where
  name : List Char
  value : List Char
  subcfg : List (List Char × Option (List Char))
deriving DecidableEq, Repr

/-! ### Parsing -/

/-- The parts of a text between commas. -/
def pieces : List Char → List (List Char)
  | [] => [[]]
  | c :: s =>
    if c = ',' then [] :: pieces s
    else match pieces s with
      | [] => [[c]]
      | piece :: others => (c :: piece) :: others

/-- The name of a part, and the value if there is one. -/
def subItem (piece : List Char) : List Char × Option (List Char) :=
  (piece.takeWhile (· ≠ '='),
    if '=' ∈ piece then some ((piece.dropWhile (· ≠ '=')).drop 1) else none)

/-- `libwr_subcfg` -/
def libwrSubcfg (value : List Char) : List (List Char × Option (List Char)) :=
  if '=' ∈ value then ((pieces value).map subItem).reverse else []

def configPrefix : List Char := ['C', 'O', 'N', 'F', 'I', 'G', '_']

/-- `sscanf(line, "CONFIG_%[^=]=%[^\n]", name, value)` with both conversions. -/
def scanAssignment (line : List Char) : Option (List Char × List Char) :=
  if configPrefix.isPrefixOf line then
    let rest := line.drop configPrefix.length
    match rest.dropWhile (· ≠ '=') with
    | [] => none
    | _ :: text =>
      let name := rest.takeWhile (· ≠ '=')
      let value := text.takeWhile (· ≠ '\n')
      if name = [] ∨ value = [] then none else some (name, value)
  else none

/-- The text through the closing quote, which is one without a backslash in front. -/
def quoted (before : Char) : List Char → List Char
  | [] => []
  | c :: s => if c = '"' ∧ before ≠ '\\' then [] else c :: quoted c s

def parseValue (value : List Char) : Option (List Char) :=
  match value.dropWhile (· = ' ') with
  | [] => none
  | c :: s =>
    if c.isDigit ∨ c = '-' then some ((c :: s).takeWhile (· ≠ '#'))
    -- everything after the recognized character is dropped
    else if c = 'y' ∨ c = 'n' ∨ c = 'm' then some [c]
    else if c = '"' then some (quoted '"' s)
    else none

/-- `libwr_cfg_line`: `none` is an error, `some none` a line that is ignored. -/
def libwrCfgLine (line : List Char) : Option (Option CfgItem) :=
  if line.head? = some '#' then some none
  else if line.length < 2 then some none
  else match scanAssignment line with
    | none => none
    | some (name, value) =>
      (parseValue value).map fun value => some ⟨name, value, libwrSubcfg value⟩

/-- The loop of `libwr_cfg_read_file` after this number of lines. -/
def readCfgLines : List (List Char) → Nat → List CfgItem → Int × List CfgItem
  | [], _, libwrCfg => (0, libwrCfg)
  | s :: lines, lineno, libwrCfg =>
    match libwrCfgLine (cString s) with
    | none => (-(lineno + 1 : Nat), libwrCfg)
    | some none => readCfgLines lines (lineno + 1) libwrCfg
    | some (some c) => readCfgLines lines (lineno + 1) (c :: libwrCfg)

/-- The part of `char s[512]` that `fgets` fills. -/
def cfgRoom : Nat := 511

/-- `libwr_cfg_read_file`: the result and the items. -/
def libwrCfgReadFile (dotconfig : List Char) : Int × List CfgItem :=
  readCfgLines (readLines cfgRoom dotconfig) 0 []

/-- `libwr_cfg_get` -/
def libwrCfgGet (libwrCfg : List CfgItem) (cfgname : List Char) : Option (List Char) :=
  (libwrCfg.find? (·.name = cfgname)).map CfgItem.value

/-- `libwr_cfg_get2`: the first item of that name, in whichever of the assignments. -/
def libwrCfgGet2 (libwrCfg : List CfgItem) (cfgname subname : List Char) : Option (List Char) :=
  match libwrCfg with
  | [] => none
  | c :: rest =>
    if c.name = cfgname then
      match c.subcfg.find? (·.1 = subname) with
      | some subc => subc.2
      | none => libwrCfgGet2 rest cfgname subname
    else libwrCfgGet2 rest cfgname subname

/-! ### The syntax -/

/-- Quotes and backslashes with a backslash in front. -/
def escape : List Char → List Char
  | [] => []
  | c :: s => if c = '"' ∨ c = '\\' then '\\' :: c :: escape s else c :: escape s

inductive DotValue
  | tristate (c : Char)
  | number (digits : List Char)
  | string (chars : List Char)
deriving DecidableEq, Repr

def DotValue.text : DotValue → List Char
  | .tristate c => [c]
  | .number digits => digits
  | .string chars => '"' :: (escape chars ++ ['"'])

/-- What the value stands for. -/
def DotValue.unescaped : DotValue → List Char
  | .tristate c => [c]
  | .number digits => digits
  | .string chars => chars

inductive DotLine
  | blank
  | comment (text : List Char)
  | assign (name : List Char) (value : DotValue) (spaces : Nat) (remark : Option (List Char))
  | other (text : List Char)
deriving DecidableEq, Repr

def remarkText : Option (List Char) → List Char
  | some text => '#' :: text
  | none => []

/-- What may follow a value. -/
def trailing (spaces : Nat) (remark : Option (List Char)) : List Char :=
  List.replicate spaces ' ' ++ remarkText remark

def DotLine.text : DotLine → List Char
  | .blank => []
  | .comment text => '#' :: text
  | .assign name value spaces remark =>
    configPrefix ++ (name ++ '=' :: (value.text ++ trailing spaces remark))
  | .other text => text

def DotLine.isOther : DotLine → Bool
  | .other _ => true
  | _ => false

/-- The characters with which a value may start. -/
def Starts (c : Char) : Prop := c.isDigit ∨ c = '-' ∨ c = 'y' ∨ c = 'n' ∨ c = 'm' ∨ c = '"'

/-- A line that assigns something to some name. -/
def Assigns (text : List Char) : Prop :=
  ∃ name spaces c rest, name ≠ [] ∧ '=' ∉ name ∧ Starts c ∧
    text = configPrefix ++ (name ++ '=' :: (List.replicate spaces ' ' ++ c :: rest))

/-- A number starts with a digit or a minus; no string ends in a backslash. -/
def DotValue.Ok : DotValue → Prop
  | .tristate c => c = 'y' ∨ c = 'n' ∨ c = 'm'
  | .number digits => (∃ c s, digits = c :: s ∧ (c.isDigit ∨ c = '-')) ∧ '#' ∉ digits
  | .string chars => chars.getLast? ≠ some '\\'

def DotLine.Ok : DotLine → Prop
  | .blank => True
  | .comment _ => True
  | .assign name value _ _ => name ≠ [] ∧ '=' ∉ name ∧ value.Ok
  | .other text => text ≠ [] ∧ text.head? ≠ some '#' ∧ ¬Assigns text

/-- A line of a text file that fits into the buffer. -/
def DotLine.Fits (line : DotLine) : Prop :=
  (∀ c ∈ line.text, c ≠ '\n' ∧ c.toNat ≠ 0) ∧ line.text.length < cfgRoom

instance (line : DotLine) : Decidable line.Fits :=
  @instDecidableAnd _ _ (List.decidableBAll (fun c => c ≠ '\n' ∧ c.toNat ≠ 0) line.text)
    (inferInstanceAs (Decidable (_ < _)))

def dotFile (lines : List DotLine) : List Char := unlines (lines.map DotLine.text)

/-! ### Values -/

private theorem quoted_escape {before : Char} (chars rest : List Char)
    (front : chars = [] → before ≠ '\\') (last : chars.getLast? ≠ some '\\') :
    quoted before (escape chars ++ '"' :: rest) = escape chars := by
  induction chars generalizing before with
  | nil => exact if_pos ⟨rfl, front rfl⟩
  | cons c chars ih =>
    have later : chars.getLast? ≠ some '\\' := by
      cases chars with
      | nil => exact nofun
      | cons d chars => rwa [List.getLast?_cons_cons] at last
    -- only the last character stands before the closing quote
    have own : chars = [] → c ≠ '\\' := by
      rintro rfl rfl
      exact last rfl
    rw [escape]
    split
    next =>
      rw [List.cons_append, List.cons_append, quoted,
        if_neg (fun both => absurd both.1 (by decide)), quoted, if_neg (fun both => both.2 rfl), ih own later]
    next plain =>
      rw [not_or] at plain
      rw [List.cons_append, quoted, if_neg (fun both => plain.1 both.1), ih own later]

/-- What is kept of a value: numbers with the spaces behind them, strings with their backslashes. -/
def DotValue.written (spaces : Nat) : DotValue → List Char
  | .tristate c => [c]
  | .number digits => digits ++ List.replicate spaces ' '
  | .string chars => escape chars

private theorem takeWhile_before_remark {s : List Char} (plain : '#' ∉ s)
    (remark : Option (List Char)) :
    (s ++ remarkText remark).takeWhile (· ≠ '#') = s := by
  cases remark with
  | none =>
    rw [remarkText, List.append_nil]
    exact List.takeWhile_eq_self_iff.mpr (forall_ne_of_not_mem plain)
  | some text => exact (cut_at plain text).1

private theorem parseValue_cons {c : Char} (visible : c ≠ ' ') (s : List Char) :
    parseValue (c :: s) =
      if c.isDigit ∨ c = '-' then some ((c :: s).takeWhile (· ≠ '#'))
      else if c = 'y' ∨ c = 'n' ∨ c = 'm' then some [c]
      else if c = '"' then some (quoted '"' s)
      else none := by
  have front : (c :: s).dropWhile (· = ' ') = c :: s := by
    rw [List.dropWhile_cons, if_neg (by simpa using visible)]
  rw [parseValue, front]

private theorem parseValue_text {value : DotValue} (ok : value.Ok) (spaces : Nat)
    (remark : Option (List Char)) :
    parseValue (value.text ++ trailing spaces remark) = some (value.written spaces) := by
  -- a tristate, a number or a quoted string
  cases value with
  | tristate c =>
    obtain rfl | rfl | rfl := ok
    all_goals
      rw [DotValue.text, List.singleton_append, parseValue_cons (by decide)]
      rfl
  | number digits =>
    obtain ⟨⟨c, s, rfl, start⟩, plain⟩ := ok
    have visible : c ≠ ' ' := by
      rintro rfl
      exact absurd start (by decide)
    have spaced : '#' ∉ c :: s ++ List.replicate spaces ' ' := by
      rw [List.mem_append, not_or]
      exact ⟨plain, fun member => absurd (List.eq_of_mem_replicate member) (by decide)⟩
    have kept := takeWhile_before_remark spaced remark
    rw [DotValue.text, trailing, List.cons_append, parseValue_cons visible, if_pos start,
      ← List.cons_append, ← List.append_assoc, kept]
    rfl
  | string chars =>
    have shape : DotValue.text (.string chars) ++ trailing spaces remark =
        '"' :: (escape chars ++ '"' :: trailing spaces remark) := by
      simp [DotValue.text]
    rw [shape, parseValue_cons (by decide), if_neg (by decide), if_neg (by decide), if_pos rfl,
      quoted_escape chars _ (fun _ => by decide) ok]
    rfl

/-! ### Lines -/

private theorem scanAssignment_equals {name : List Char} (plain : '=' ∉ name) (back : List Char) :
    scanAssignment (configPrefix ++ (name ++ '=' :: back)) =
      if name = [] ∨ back.takeWhile (· ≠ '\n') = [] then none
      else some (name, back.takeWhile (· ≠ '\n')) := by
  obtain ⟨taken, dropped⟩ := cut_at plain back
  have start : configPrefix.isPrefixOf (configPrefix ++ (name ++ '=' :: back)) = true :=
    List.isPrefixOf_iff_prefix.mpr (List.prefix_append _ _)
  simp only [scanAssignment, if_pos start, List.drop_left, taken, dropped]

private theorem scanAssignment_none {rest : List Char} (plain : '=' ∉ rest) :
    scanAssignment (configPrefix ++ rest) = none := by
  have start : configPrefix.isPrefixOf (configPrefix ++ rest) = true :=
    List.isPrefixOf_iff_prefix.mpr (List.prefix_append _ _)
  have dropped := List.dropWhile_eq_nil_iff.mpr (forall_ne_of_not_mem plain)
  simp only [scanAssignment, if_pos start, List.drop_left, dropped]

/-- The only way to read an assignment. -/
theorem scanAssignment_iff {text : List Char} (line : '\n' ∉ text) (name value : List Char) :
    scanAssignment (text ++ ['\n']) = some (name, value) ↔
      name ≠ [] ∧ '=' ∉ name ∧ value ≠ [] ∧ text = configPrefix ++ (name ++ '=' :: value) := by
  have lineEnd {value : List Char} (own : '\n' ∉ value) :
      (value ++ ['\n']).takeWhile (· ≠ '\n') = value := (cut_at own []).1
  constructor
  · intro scanned
    by_cases start : configPrefix.isPrefixOf (text ++ ['\n']) = true
    · obtain ⟨rest, whole⟩ := List.isPrefixOf_iff_prefix.mp start
      rw [← whole] at scanned
      by_cases equals : '=' ∈ rest
      · obtain ⟨front, back, rfl, plain⟩ := List.eq_append_cons_of_mem equals
        rw [scanAssignment_equals plain] at scanned
        split at scanned
        · cases scanned
        next both =>
          rw [not_or] at both
          cases scanned
          -- the end of the line is the last character of the value's text
          obtain rfl | ⟨init, c, rfl⟩ := List.eq_nil_or_concat back
          · exact absurd rfl both.2
          · have shape : (configPrefix ++ (name ++ '=' :: init)) ++ [c] = text ++ ['\n'] := by
              rw [← whole]
              simp
            obtain ⟨rfl, same⟩ := List.append_inj' shape rfl
            cases same
            have own : '\n' ∉ init := fun member => line (by simp [member])
            rw [List.concat_eq_append, lineEnd own] at both ⊢
            exact ⟨both.1, plain, both.2, rfl⟩
      · rw [scanAssignment_none equals] at scanned
        cases scanned
    · rw [scanAssignment, if_neg start] at scanned
      cases scanned
  · rintro ⟨some, plain, more, rfl⟩
    have own : '\n' ∉ value := fun member => line (by simp [member])
    rw [List.append_assoc, List.append_assoc, List.cons_append, scanAssignment_equals plain,
      lineEnd own, if_neg (not_or.mpr ⟨some, more⟩)]

/-- The item of a line. -/
def DotLine.item : DotLine → Option CfgItem
  | .assign name value spaces _ =>
    some ⟨name, value.written spaces, libwrSubcfg (value.written spaces)⟩
  | _ => none

private theorem cString_line {text : List Char} (plain : ∀ c ∈ text, c ≠ '\n' ∧ c.toNat ≠ 0) :
    cString (text ++ ['\n']) = text ++ ['\n'] := by
  refine List.takeWhile_eq_self_iff.mpr fun c member => ?_
  rw [decide_eq_true_eq]
  obtain own | ending := List.mem_append.mp member
  · exact (plain c own).2
  · rw [List.mem_singleton.mp ending]
    decide

private theorem parseValue_starts {value : List Char} {result : List Char}
    (parsed : parseValue value = some result) :
    ∃ spaces c rest, Starts c ∧ value = List.replicate spaces ' ' ++ c :: rest := by
  have whole := List.takeWhile_append_dropWhile (p := fun c => decide (c = ' ')) (l := value)
  have front : value.takeWhile (fun c => decide (c = ' ')) =
      List.replicate (value.takeWhile fun c => decide (c = ' ')).length ' ' :=
    List.eq_replicate_of_mem fun c member => by
      simpa using List.mem_takeWhile_imp member
  rw [parseValue] at parsed
  split at parsed
  · cases parsed
  next c s rest =>
    rw [rest, front] at whole
    refine ⟨_, c, s, ?_, whole.symm⟩
    -- the kind of the value is told by its first character
    split_ifs at parsed with number tristate string
    · exact number.elim .inl fun minus => .inr (.inl minus)
    · obtain y | n | m := tristate
      · exact .inr (.inr (.inl y))
      · exact .inr (.inr (.inr (.inl n)))
      · exact .inr (.inr (.inr (.inr (.inl m))))
    · exact .inr (.inr (.inr (.inr (.inr string))))

private theorem libwrCfgLine_text {line : DotLine} (ok : line.Ok) (fits : line.Fits) :
    libwrCfgLine (cString (line.text ++ ['\n'])) =
      if line.isOther then none else some line.item := by
  have newline : '\n' ∉ line.text := fun member => (fits.1 _ member).1 rfl
  rw [cString_line fits.1]
  cases line with
  | blank => rfl
  | comment text => rfl
  | assign name value spaces remark =>
    obtain ⟨some, plain, valueOk⟩ := ok
    have parsed := parseValue_text valueOk spaces remark
    have more : value.text ++ trailing spaces remark ≠ [] := by
      intro empty
      rw [empty] at parsed
      cases parsed
    have scanned := (scanAssignment_iff newline name (value.text ++ trailing spaces remark)).mpr
      ⟨some, plain, more, rfl⟩
    have length : ¬(DotLine.text (.assign name value spaces remark) ++ ['\n']).length < 2 := by
      rw [DotLine.text, List.append_assoc, List.length_append]
      change ¬7 + _ < 2
      omega
    have head : (DotLine.text (.assign name value spaces remark) ++ ['\n']).head? ≠
        Option.some '#' := fun same => by
      have first : Option.some 'C' = Option.some '#' := same
      exact absurd first (by decide)
    rw [libwrCfgLine, if_neg head, if_neg length, scanned]
    simp only [parsed]
    rfl
  | other text =>
    obtain ⟨some, start, not⟩ := ok
    obtain ⟨c, s, rfl⟩ := List.exists_cons_of_ne_nil some
    have head : ¬(DotLine.text (.other (c :: s)) ++ ['\n']).head? = Option.some '#' := start
    have length : ¬(DotLine.text (.other (c :: s)) ++ ['\n']).length < 2 := by
      rw [List.length_append]
      change ¬s.length + 1 + 1 < 2
      omega
    rw [libwrCfgLine, if_neg head, if_neg length]
    -- another line may look like an assignment, but then its value does not parse
    cases scanned : scanAssignment (DotLine.text (.other (c :: s)) ++ ['\n']) with
    | none => rfl
    | some both =>
      obtain ⟨name, value⟩ := both
      obtain ⟨named, plain, _, shape⟩ := (scanAssignment_iff newline name value).mp scanned
      cases parsed : parseValue value with
      | none => simp only [parsed]; rfl
      | some result =>
        obtain ⟨spaces, d, rest, starts, rfl⟩ := parseValue_starts parsed
        exact absurd ⟨name, spaces, d, rest, named, plain, starts, shape⟩ not

/-! ### Files -/

private theorem readCfgLines_texts {lines : List DotLine} (ok : ∀ line ∈ lines, line.Ok ∧ line.Fits)
    (lineno : Nat) (libwrCfg : List CfgItem) :
    readCfgLines (lines.map fun line => line.text ++ ['\n']) lineno libwrCfg =
      match lines.findIdx? DotLine.isOther with
      | none => (0, (lines.filterMap DotLine.item).reverse ++ libwrCfg)
      | some n => (-(lineno + n + 1 : Nat),
          ((lines.take n).filterMap DotLine.item).reverse ++ libwrCfg) := by
  induction lines generalizing lineno libwrCfg with
  | nil => rfl
  | cons line lines ih =>
    obtain ⟨own, others⟩ := List.forall_mem_cons.mp ok
    rw [List.map_cons, readCfgLines, libwrCfgLine_text own.1 own.2, List.findIdx?_cons]
    -- the first other line ends the file
    by_cases other : line.isOther = true
    · rw [if_pos other, if_pos other]
      rfl
    · rw [if_neg other, if_neg other]
      cases item : line.item with
      | none =>
        simp only [ih others]
        cases lines.findIdx? DotLine.isOther with
        | none => simp [item]
        | some n => simp [item, Nat.add_right_comm, Nat.add_assoc]
      | some c =>
        simp only [ih others]
        cases lines.findIdx? DotLine.isOther with
        | none => simp [item]
        | some n => simp [item, Nat.add_right_comm, Nat.add_assoc]

/-- The values that a name gets, the last one first. -/
def assignments (name : List Char) (lines : List DotLine) : List (List Char) :=
  (lines.filterMap fun line => match line with
    | .assign name' value spaces _ => if name' = name then some (value.written spaces) else none
    | _ => none).reverse

/-- The items that a file without other lines leaves. -/
def itemsOf (lines : List DotLine) : List CfgItem := (lines.filterMap DotLine.item).reverse

def valuesOf (name : List Char) (libwrCfg : List CfgItem) : List (List Char) :=
  libwrCfg.filterMap fun c => if c.name = name then some c.value else none

private theorem valuesOf_items (name : List Char) (lines : List DotLine) :
    valuesOf name (itemsOf lines) = assignments name lines := by
  rw [valuesOf, itemsOf, assignments, List.filterMap_reverse, List.filterMap_filterMap]
  congr 2
  funext line
  cases line <;> rfl

private theorem libwrCfgGet_eq (libwrCfg : List CfgItem) (name : List Char) :
    libwrCfgGet libwrCfg name = (valuesOf name libwrCfg).head? := by
  induction libwrCfg with
  | nil => rfl
  | cons c libwrCfg ih =>
    rw [libwrCfgGet, List.find?_cons, valuesOf, List.filterMap_cons]
    by_cases same : c.name = name
    · simp [same]
    · simp only [same, decide_false, if_false]
      exact ih

/-- The first part of that name in one of the values. -/
def firstItem (subname : List Char) : List (List Char) → Option (List Char)
  | [] => none
  | value :: values =>
    match (libwrSubcfg value).find? (·.1 = subname) with
    | some subc => subc.2
    | none => firstItem subname values

private theorem libwrCfgGet2_eq {libwrCfg : List CfgItem}
    (parsed : ∀ c ∈ libwrCfg, c.subcfg = libwrSubcfg c.value) (name subname : List Char) :
    libwrCfgGet2 libwrCfg name subname = firstItem subname (valuesOf name libwrCfg) := by
  induction libwrCfg with
  | nil => rfl
  | cons c libwrCfg ih =>
    obtain ⟨own, others⟩ := List.forall_mem_cons.mp parsed
    rw [libwrCfgGet2, valuesOf, List.filterMap_cons, ih others, ← valuesOf]
    by_cases same : c.name = name
    · rw [if_pos same, if_pos same, own]
      rfl
    · rw [if_neg same, if_neg same]

/-- The last part of that name in a value, and the value it has there. -/
def LastItem (value subname result : List Char) : Prop :=
  ∃ before after, pieces value = before ++ (subname ++ '=' :: result) :: after ∧
    ∀ piece ∈ after, (subItem piece).1 ≠ subname

private theorem mem_of_mem_pieces {value piece : List Char} {c : Char}
    (among : piece ∈ pieces value) (member : c ∈ piece) : c ∈ value := by
  induction value generalizing piece with
  | nil =>
    rw [pieces, List.mem_singleton] at among
    rw [among] at member
    exact member
  | cons d value ih =>
    rw [pieces] at among
    split at among
    -- the separator starts a new piece, any other character joins the first one
    · obtain rfl | among := List.mem_cons.mp among
      · cases member
      · exact List.mem_cons_of_mem _ (ih among member)
    · split at among
      · rw [List.mem_singleton] at among
        rw [among, List.mem_singleton] at member
        rw [member]
        exact List.mem_cons_self
      next first others split =>
        have inner {piece : List Char} (among : piece ∈ first :: others) (member : c ∈ piece) :
            c ∈ d :: value := List.mem_cons_of_mem _ (ih (split ▸ among) member)
        obtain rfl | among := List.mem_cons.mp among
        · obtain rfl | member := List.mem_cons.mp member
          · exact List.mem_cons_self
          · exact inner List.mem_cons_self member
        · exact inner (List.mem_cons_of_mem _ among) member

private theorem subItem_pair {subname : List Char} (plain : '=' ∉ subname) (result : List Char) :
    subItem (subname ++ '=' :: result) = (subname, some result) := by
  obtain ⟨taken, dropped⟩ := cut_at plain result
  rw [subItem, taken, dropped, if_pos (List.mem_append_right _ List.mem_cons_self)]
  rfl

private theorem firstItem_last {value subname result : List Char} (plain : '=' ∉ subname)
    (last : LastItem value subname result) (values : List (List Char)) :
    firstItem subname (value :: values) = some result := by
  obtain ⟨before, after, shape, others⟩ := last
  have equals : '=' ∈ value := by
    refine @mem_of_mem_pieces _ (subname ++ '=' :: result) _ ?_ (by simp)
    rw [shape]
    simp
  have skip : ((after.map subItem).reverse.find? fun subc => subc.1 = subname) = none := by
    refine List.find?_eq_none.mpr fun subc member => ?_
    obtain ⟨piece, among, rfl⟩ := List.mem_map.mp (List.mem_reverse.mp member)
    simpa using others piece among
  have found : ((libwrSubcfg value).find? fun subc => subc.1 = subname) =
      some (subname, some result) := by
    rw [libwrSubcfg, if_pos equals, shape, List.map_append, List.map_cons, subItem_pair plain,
      List.reverse_append, List.reverse_cons, List.append_assoc, List.find?_append, skip]
    simp
  rw [firstItem, found]

private theorem firstItem_none {subname : List Char} {values : List (List Char)}
    (absent : ∀ value ∈ values, ∀ piece ∈ pieces value, (subItem piece).1 ≠ subname) :
    firstItem subname values = none := by
  induction values with
  | nil => rfl
  | cons value values ih =>
    obtain ⟨own, others⟩ := List.forall_mem_cons.mp absent
    have skip : ((libwrSubcfg value).find? fun subc => subc.1 = subname) = none := by
      refine List.find?_eq_none.mpr fun subc member => ?_
      rw [libwrSubcfg] at member
      split at member
      · obtain ⟨piece, among, rfl⟩ := List.mem_map.mp (List.mem_reverse.mp member)
        simpa using own piece among
      · cases member
    rw [firstItem, skip, ih others]

/-- Files of lines that fit: the number of the first line that assigns nothing is reported, and else
every name has the value of its last assignment as it is written. -/
theorem dot_config_read (lines : List DotLine) (ok : ∀ line ∈ lines, line.Ok ∧ line.Fits) :
    (libwrCfgReadFile (dotFile lines)).1 = (match lines.findIdx? DotLine.isOther with
      | none => 0
      | some n => -(n + 1 : Nat)) ∧
    (lines.findIdx? DotLine.isOther = none →
      let libwrCfg := (libwrCfgReadFile (dotFile lines)).2
      ∀ name, libwrCfgGet libwrCfg name = (assignments name lines).head? ∧
        ∀ subname, '=' ∉ subname →
          (∀ value result, (assignments name lines).head? = some value →
            LastItem value subname result → libwrCfgGet2 libwrCfg name subname = some result) ∧
          ((∀ value ∈ assignments name lines, ∀ piece ∈ pieces value,
            (subItem piece).1 ≠ subname) → libwrCfgGet2 libwrCfg name subname = none)) := by
  -- the file splits back into the lines it was written from
  have texts : readLines cfgRoom (dotFile lines) = lines.map fun line => line.text ++ ['\n'] := by
    rw [dotFile, readLines_unlines, List.map_map]
    · rfl
    · intro text member
      obtain ⟨line, among, rfl⟩ := List.mem_map.mp member
      have fits := (ok line among).2
      exact ⟨fun newline => (fits.1 _ newline).1 rfl, fits.2⟩
  have read := readCfgLines_texts ok 0 []
  rw [← texts, ← libwrCfgReadFile] at read
  rw [read]
  cases other : lines.findIdx? DotLine.isOther with
  | some n => exact ⟨by simp, nofun⟩
  | none =>
    refine ⟨rfl, fun _ name => ?_⟩
    have items : (lines.filterMap DotLine.item).reverse ++ [] = itemsOf lines := List.append_nil _
    -- the sub-items are read once, when the line is stored
    have parsed : ∀ c ∈ itemsOf lines, c.subcfg = libwrSubcfg c.value := by
      intro c member
      obtain ⟨line, _, item⟩ := List.mem_filterMap.mp (List.mem_reverse.mp member)
      cases line <;> cases item
      rfl
    simp only [items, libwrCfgGet_eq, libwrCfgGet2_eq parsed, valuesOf_items, true_and]
    refine fun subname plain => ⟨fun value result head last => ?_, firstItem_none⟩
    obtain ⟨values, shape⟩ := List.head?_eq_some_iff.mp head
    rw [shape]
    exact firstItem_last plain last values

/-- `# c`, `CONFIG_A="k=1,k=2"` and `CONFIG_B=5` with a remark. -/
def smallLines : List DotLine :=
  [.comment [' ', 'c'], .assign ['A'] (.string ['k', '=', '1', ',', 'k', '=', '2']) 0 none,
    .assign ['B'] (.number ['5']) 1 (some ['x'])]

private theorem smallLines_ok : ∀ line ∈ smallLines, line.Ok ∧ line.Fits := by
  rw [smallLines, List.forall_mem_cons, List.forall_mem_cons, List.forall_mem_singleton]
  refine ⟨⟨trivial, by decide⟩, ⟨⟨by decide, by decide, ?_⟩, by decide⟩,
    ⟨⟨by decide, by decide, ⟨'5', [], rfl, .inl rfl⟩, by decide⟩, by decide⟩⟩
  change List.getLast? ['k', '=', '1', ',', 'k', '=', '2'] ≠ some '\\'
  decide

/-- A number is read with the space behind it, and of two items the last one. -/
theorem dot_config_small :
    let libwrCfg := (libwrCfgReadFile (dotFile smallLines)).2
    libwrCfgGet libwrCfg ['B'] = some ['5', ' '] ∧
      libwrCfgGet2 libwrCfg ['A'] ['k'] = some ['2'] :=
  have read := (dot_config_read smallLines smallLines_ok).2 (by decide)
  ⟨(read ['B']).1.trans (by decide), ((read ['A']).2 ['k'] (by decide)).1
    ['k', '=', '1', ',', 'k', '=', '2'] ['2'] (by decide) ⟨[['k', '=', '1']], [], by decide, nofun⟩⟩

/-- The value of `X` in a file with one line. -/
def valueOfX (line : DotLine) : Option (List Char) :=
  libwrCfgGet (libwrCfgReadFile (dotFile [line])).2 ['X']

/-- The item `k` of `X` in a file that gives `X` these strings. -/
def itemOfX (strings : List (List Char)) : Option (List Char) :=
  libwrCfgGet2 (libwrCfgReadFile (dotFile (strings.map fun chars =>
    .assign ['X'] (.string chars) 0 none))).2 ['X'] ['k']

/-- A backslash in front of a quote stays, and one in front of a backslash hides the closing quote;
spaces behind a number stay; a line with `yes` is not reported; a long comment is, in line 2; and
the item `k` comes from an older assignment, or an item without a value hides it. -/
theorem dot_config_not_unescaped :
    valueOfX (.assign ['X'] (.string ['a', '"', 'b']) 0 none) ≠
      some (DotValue.unescaped (.string ['a', '"', 'b'])) ∧
    valueOfX (.assign ['X'] (.string ['a', '\\']) 0 none) = some ['a', '\\', '\\', '"'] ∧
    valueOfX (.assign ['X'] (.number ['5']) 1 none) ≠ some (DotValue.unescaped (.number ['5'])) ∧
    (libwrCfgReadFile (configPrefix ++ ['X', '=', 'y', 'e', 's', '\n'])).1 = 0 ∧
    (libwrCfgReadFile (dotFile [.comment (List.replicate 600 'c')])).1 = -2 ∧
    itemOfX [['k', '=', '1'], ['j', '=', '2']] = some ['1'] ∧
    itemOfX [['k', '=', '1', ',', 'k']] = none := by
  refine ⟨by decide, by decide, by decide, by decide, ?_, by decide, by decide⟩
  decide +kernel

end WrSwitch.Libwr
