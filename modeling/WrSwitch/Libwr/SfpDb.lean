import WrSwitch.Libwr.DotConfig
import WrSwitch.Machine.Bytes
import WrSwitch.Machine.FirstMatch
import WrSwitch.Tools.WrsVlans

/-!
# The SFP database

`shw_sfp_read_db` reads the entries of the configuration file, `shw_sfp_get_cal_data` finds the
one for the header of a module (`libwr/i2c_sfp.c`).
-/
namespace WrSwitch.Libwr

open Machine

/-! ### Strings in arrays -/

/-- `strncpy` into an array of `n` bytes. -/
def strncpy (n : Nat) (s : Mem) : Mem := (s ++ List.replicate n 0).take n

/-- `strncmp` gives 0. -/
def strncmpZero : Nat → Mem → Mem → Bool
  | 0, _, _ => true
  | n + 1, a, b =>
    if a.headD 0 ≠ b.headD 0 then false
    else if a.headD 0 = 0 then true
    else strncmpZero n a.tail b.tail

def removeTrailingSpaces (p : Mem) : Mem :=
  let text := (p.reverse.dropWhile (· = 0x20)).reverse
  text ++ List.replicate (p.length - text.length) 0

/-! ### The database -/

/-- `struct shw_sfp_caldata`; the list is linked through its order. -/
structure ShwSfpCaldata where
  dbEntry : Int
  vendorName : Mem
  partNum : Mem
  vendorSerial : Mem
  vendorRevision : Mem
  deltaTxPs : Int
  deltaRxPs : Int
  txWl : Int
  rxWl : Int
  matchFlags : BitVec 32
deriving DecidableEq, Repr

def vendorNameLen : Nat := 16
def vendorPnLen : Nat := 16
def vendorSerialLen : Nat := 16
def vendorRevLen : Nat := 4

/-- `SFP%02i_PARAMS` -/
def sfpKey (index : Nat) : List Char :=
  ['S', 'F', 'P'] ++ (Nat.toDigits 10 index).leftpad 2 '0' ++ ['_', 'P', 'A', 'R', 'A', 'M', 'S']

def nSfpEntries : List Char := ['N', '_', 'S', 'F', 'P', '_', 'E', 'N', 'T', 'R', 'I', 'E', 'S']

def bytesOf (s : List Char) : Mem := s.map fun c => BitVec.ofNat 8 c.toNat

/-- `sscanf` with `%i`, and the rest of the string. -/
def scanNumber (s : List Char) : Option (Int × List Char) :=
  let (value, rest) := Tools.strtol s
  if rest = s then none else some (value, rest)

/-- `sscanf` with `%i+%i`, and the zeros if it does not make two conversions. -/
def scanWavelengths (s : List Char) : Int × Int :=
  match scanNumber s with
  | some (tx, '+' :: rest) =>
    match scanNumber rest with
    | some (rx, _) => (tx, rx)
    | none => (0, 0)
  | _ => (0, 0)

/-- `libwr_cfg_convert2` of an integer whose error is only reported. -/
def delay (value : Option (List Char)) : Int :=
  ((value.bind scanNumber).map Prod.fst).getD 0

/-- One turn of the loop of `shw_sfp_read_db`: an entry without a part number is skipped. -/
def readSfpEntry (libwrCfg : List CfgItem) (index : Nat) : Option ShwSfpCaldata :=
  let get := libwrCfgGet2 libwrCfg (sfpKey index)
  (get ['p', 'n']).map fun pn =>
    let rev := get ['r', 'e', 'v']
    let vn := get ['v', 'n']
    let vs := get ['v', 's']
    -- the buffer still has the string before, if there are no wavelengths
    let s := (get ['w', 'l', '_', 't', 'x', 'r', 'x']).getD
      (vs.getD (vn.getD (rev.getD pn)))
    { dbEntry := index
      vendorName := strncpy vendorNameLen (bytesOf (vn.getD []))
      partNum := strncpy vendorPnLen (bytesOf pn)
      vendorSerial := strncpy vendorSerialLen (bytesOf (vs.getD []))
      vendorRevision := strncpy vendorRevLen (bytesOf (rev.getD []))
      deltaTxPs := delay (get ['t', 'x'])
      deltaRxPs := delay (get ['r', 'x'])
      txWl := (scanWavelengths s).1
      rxWl := (scanWavelengths s).2
      matchFlags := 0 }

/-- `shw_sfp_read_db`: what becomes of `shw_sfp_cal_list`, empty before. -/
def shwSfpReadDb (libwrCfg : List CfgItem) : List ShwSfpCaldata :=
  match (libwrCfgGet libwrCfg nSfpEntries).bind scanNumber with
  | none => []
  | some (nbSfpEntries, _) =>
    (List.range nbSfpEntries.toNat).reverse.foldl
      (fun calList index =>
        match readSfpEntry libwrCfg index with
        | none => calList
        | some sfp => sfp :: calList)
      []

/-! ### The header -/

/-- `struct shw_sfp_header`, byte by byte. -/
abbrev ShwSfpHeader := Nat → BitVec 8

def ShwSfpHeader.field (head : ShwSfpHeader) (offset len : Nat) : Mem :=
  (List.range len).map fun i => head (offset + i)

def ShwSfpHeader.vendorName (head : ShwSfpHeader) : Mem := head.field 20 vendorNameLen
def ShwSfpHeader.vendorPn (head : ShwSfpHeader) : Mem := head.field 40 vendorPnLen
def ShwSfpHeader.vendorRev (head : ShwSfpHeader) : Mem := head.field 56 vendorRevLen
def ShwSfpHeader.vendorSerial (head : ShwSfpHeader) : Mem := head.field 68 vendorSerialLen

def getSfpTxWaveLength (head : ShwSfpHeader) : Int :=
  ((head 60).toNat <<< 8 + (head 61).toNat : Nat)

/-! ### Matching -/

/-- The arguments of `shw_sfp_match_db`; `none` is a null pointer. -/
structure SfpParams where
  txWaveLength : Option Int
  vn : Option Mem
  pn : Option Mem
  vs : Option Mem
  vr : Option Mem

/-- One of the conditions on a string. -/
def matchText (param : Option Mem) (n : Nat) (entry : Mem) : Bool :=
  match param with
  | none => entry.headD 0 = 0
  | some text => strncmpZero n text entry

def SfpParams.matches (p : SfpParams) (t : ShwSfpCaldata) : Bool :=
  (match p.txWaveLength with
    | none => t.txWl = 0
    | some wl => wl = t.txWl) &&
  matchText p.vn vendorNameLen t.vendorName && matchText p.pn vendorPnLen t.partNum &&
  matchText p.vs vendorSerialLen t.vendorSerial && matchText p.vr vendorRevLen t.vendorRevision

/-- `SFP_MATCH_FLAG_*` -/
def SfpParams.flags (p : SfpParams) : BitVec 32 :=
  (if p.txWaveLength.isSome then 1 <<< 0 else 0) ||| (if p.vn.isSome then 1 <<< 1 else 0) |||
    (if p.pn.isSome then 1 <<< 2 else 0) ||| (if p.vs.isSome then 1 <<< 3 else 0) |||
    (if p.vr.isSome then 1 <<< 4 else 0)

def shwSfpMatchDb (calList : List ShwSfpCaldata) (p : SfpParams) : Option ShwSfpCaldata :=
  (calList.find? p.matches).map fun t => { t with matchFlags := p.flags }

/-- The fields that a call of `shw_sfp_match_db` passes on. -/
structure SfpRow where
  wl : Bool
  vn : Bool
  pn : Bool
  vs : Bool
  vr : Bool
deriving DecidableEq, Repr

/-- The calls of `shw_sfp_match_db` in `shw_sfp_get_cal_data`, in their order. -/
def sfpRows : List SfpRow :=
  [⟨true, true, true, true, true⟩, ⟨true, true, true, true, false⟩,
    ⟨true, true, true, false, true⟩, ⟨true, true, true, false, false⟩,
    ⟨true, false, true, false, true⟩, ⟨true, false, true, false, false⟩,
    ⟨false, true, true, true, true⟩, ⟨false, true, true, true, false⟩,
    ⟨false, true, true, false, true⟩, ⟨false, true, true, false, false⟩,
    ⟨false, false, true, false, true⟩, ⟨false, false, true, false, false⟩]

def SfpRow.params (row : SfpRow) (head : ShwSfpHeader) : SfpParams where
  txWaveLength := if row.wl then some (getSfpTxWaveLength head) else none
  vn := if row.vn then some (removeTrailingSpaces head.vendorName) else none
  pn := if row.pn then some (removeTrailingSpaces head.vendorPn) else none
  vs := if row.vs then some (removeTrailingSpaces head.vendorSerial) else none
  vr := if row.vr then some (removeTrailingSpaces head.vendorRev) else none

def shwSfpGetCalData (calList : List ShwSfpCaldata) (head : ShwSfpHeader) :
    Option ShwSfpCaldata :=
  sfpRows.findSome? fun row => shwSfpMatchDb calList (row.params head)

/-! ### Fields -/

/-- A field that an entry defines is the same string as `text`. -/
def Agrees (text entry : Mem) : Prop := entry.headD 0 ≠ 0 → cstr text = cstr entry

/-- Every field that the entry defines is that of the header. -/
structure FieldsAgree (head : ShwSfpHeader) (t : ShwSfpCaldata) : Prop where
  wl : t.txWl ≠ 0 → getSfpTxWaveLength head = t.txWl
  vn : Agrees (removeTrailingSpaces head.vendorName) t.vendorName
  pn : Agrees (removeTrailingSpaces head.vendorPn) t.partNum
  vs : Agrees (removeTrailingSpaces head.vendorSerial) t.vendorSerial
  vr : Agrees (removeTrailingSpaces head.vendorRev) t.vendorRevision

instance (text entry : Mem) : Decidable (Agrees text entry) :=
  inferInstanceAs (Decidable (_ → _))

instance (head : ShwSfpHeader) (t : ShwSfpCaldata) : Decidable (FieldsAgree head t) :=
  decidable_of_iff
    ((t.txWl ≠ 0 → getSfpTxWaveLength head = t.txWl) ∧
      Agrees (removeTrailingSpaces head.vendorName) t.vendorName ∧
      Agrees (removeTrailingSpaces head.vendorPn) t.partNum ∧
      Agrees (removeTrailingSpaces head.vendorSerial) t.vendorSerial ∧
      Agrees (removeTrailingSpaces head.vendorRev) t.vendorRevision)
    ⟨fun ⟨wl, vn, pn, vs, vr⟩ => ⟨wl, vn, pn, vs, vr⟩,
      fun ⟨wl, vn, pn, vs, vr⟩ => ⟨wl, vn, pn, vs, vr⟩⟩

/-- The strings of an entry have the sizes of their arrays. -/
structure ShwSfpCaldata.Sized (t : ShwSfpCaldata) : Prop where
  vn : t.vendorName.length = vendorNameLen
  pn : t.partNum.length = vendorPnLen
  vs : t.vendorSerial.length = vendorSerialLen
  vr : t.vendorRevision.length = vendorRevLen

private theorem strncmpZero_iff (n : Nat) (a b : Mem) (whole : a.length = n)
    (whole' : b.length = n) :
    strncmpZero n a b = true ↔ cstr a = cstr b := by
  induction n generalizing a b with
  | zero => simp [strncmpZero, List.length_eq_zero_iff.mp whole, List.length_eq_zero_iff.mp whole']
  | succ n ih =>
    obtain ⟨x, a, rfl⟩ := List.exists_of_length_succ a whole
    obtain ⟨y, b, rfl⟩ := List.exists_of_length_succ b whole'
    simp only [List.length_cons, Nat.add_right_cancel_iff] at whole whole'
    simp only [strncmpZero, List.headD_cons, List.tail_cons, cstr]
    by_cases same : x = y
    · subst same
      by_cases final : x = 0#8
      · simp [final]
      · simpa [final, cstr] using ih a b whole whole'
    · by_cases final : x = 0#8
      · have other : y ≠ 0#8 := fun zero => same (final.trans zero.symm)
        simp [final, other, Ne.symm other]
      · by_cases final' : y = 0#8 <;> simp [same, final, final']

private theorem strncpy_length (n : Nat) (s : Mem) : (strncpy n s).length = n := by
  simp [strncpy]

private theorem removeTrailingSpaces_length (p : Mem) :
    (removeTrailingSpaces p).length = p.length := by
  have shorter : ((p.reverse.dropWhile (· = 0x20)).reverse).length ≤ p.length := by
    rw [List.length_reverse, ← p.length_reverse]
    exact (List.dropWhile_sublist _).length_le
  simp only [removeTrailingSpaces, List.length_append, List.length_replicate]
  omega

/-- A condition on a string: it agrees, and it is defined only where it is passed on or equal. -/
theorem matchText_iff (given : Bool) (n : Nat) (text entry : Mem) (whole : text.length = n)
    (whole' : entry.length = n) :
    matchText (if given then some text else none) n entry = true ↔
      if given then cstr text = cstr entry else entry.headD 0 = 0 := by
  cases given with
  | true => exact strncmpZero_iff n text entry whole whole'
  | false => simp [matchText]

/-! ### Rows of the table -/

/-- An entry fits a row: the fields of the row are equal, the others are not defined. -/
structure SfpRow.Fits (row : SfpRow) (head : ShwSfpHeader) (t : ShwSfpCaldata) : Prop where
  wl : if row.wl then getSfpTxWaveLength head = t.txWl else t.txWl = 0
  vn : if row.vn then cstr (removeTrailingSpaces head.vendorName) = cstr t.vendorName
    else t.vendorName.headD 0 = 0
  pn : if row.pn then cstr (removeTrailingSpaces head.vendorPn) = cstr t.partNum
    else t.partNum.headD 0 = 0
  vs : if row.vs then cstr (removeTrailingSpaces head.vendorSerial) = cstr t.vendorSerial
    else t.vendorSerial.headD 0 = 0
  vr : if row.vr then cstr (removeTrailingSpaces head.vendorRev) = cstr t.vendorRevision
    else t.vendorRevision.headD 0 = 0

private theorem field_trimmed_length (head : ShwSfpHeader) (offset len : Nat) :
    (removeTrailingSpaces (head.field offset len)).length = len := by
  rw [removeTrailingSpaces_length, ShwSfpHeader.field, List.length_map, List.length_range]

private theorem fitsRow_iff (row : SfpRow) (head : ShwSfpHeader) (t : ShwSfpCaldata)
    (sized : t.Sized) :
    (row.params head).matches t = true ↔ row.Fits head t := by
  have wavelength : (match (row.params head).txWaveLength with
      | none => decide (t.txWl = 0)
      | some wl => decide (wl = t.txWl)) = true ↔
      if row.wl then getSfpTxWaveLength head = t.txWl else t.txWl = 0 := by
    cases given : row.wl <;> simp [SfpRow.params, given]
  -- the four texts are compared alike, each in its own width
  have vn := matchText_iff row.vn vendorNameLen (removeTrailingSpaces head.vendorName)
    t.vendorName (field_trimmed_length head 20 _) sized.vn
  have pn := matchText_iff row.pn vendorPnLen (removeTrailingSpaces head.vendorPn)
    t.partNum (field_trimmed_length head 40 _) sized.pn
  have vs := matchText_iff row.vs vendorSerialLen (removeTrailingSpaces head.vendorSerial)
    t.vendorSerial (field_trimmed_length head 68 _) sized.vs
  have vr := matchText_iff row.vr vendorRevLen (removeTrailingSpaces head.vendorRev)
    t.vendorRevision (field_trimmed_length head 56 _) sized.vr
  rw [SfpParams.matches, Bool.and_eq_true, Bool.and_eq_true, Bool.and_eq_true, Bool.and_eq_true,
    wavelength]
  simp only [SfpRow.params, vn, pn, vs, vr]
  constructor
  · rintro ⟨⟨⟨⟨wl, vn⟩, pn⟩, vs⟩, vr⟩
    exact ⟨wl, vn, pn, vs, vr⟩
  · intro fits
    exact ⟨⟨⟨⟨fits.wl, fits.vn⟩, fits.pn⟩, fits.vs⟩, fits.vr⟩

/-- Whatever row an entry fits, what it defines is that of the header. -/
theorem SfpRow.Fits.agree {row : SfpRow} {head : ShwSfpHeader} {t : ShwSfpCaldata}
    (fits : row.Fits head t) : FieldsAgree head t := by
  have text {given : Bool} {header entry : Mem}
      (condition : if given then cstr header = cstr entry else entry.headD 0 = 0) :
      Agrees header entry := by
    intro defined
    cases given with
    | true => exact condition
    | false => exact absurd condition defined
  refine ⟨fun defined => ?_, text fits.vn, text fits.pn, text fits.vs, text fits.vr⟩
  have condition := fits.wl
  split at condition
  next => exact condition
  next => exact absurd condition defined

/-! ### Entries with a row -/

/-- The fields that an entry defines. -/
def ShwSfpCaldata.row (t : ShwSfpCaldata) : SfpRow where
  wl := t.txWl ≠ 0
  vn := t.vendorName.headD 0 ≠ 0
  pn := t.partNum.headD 0 ≠ 0
  vs := t.vendorSerial.headD 0 ≠ 0
  vr := t.vendorRevision.headD 0 ≠ 0

/-- An entry that has a part number, and a vendor name if it has a serial number. -/
def ShwSfpCaldata.Listed (t : ShwSfpCaldata) : Prop :=
  t.partNum.headD 0 ≠ 0 ∧ (t.vendorSerial.headD 0 ≠ 0 → t.vendorName.headD 0 ≠ 0)

private theorem mem_sfpRows_iff (row : SfpRow) :
    row ∈ sfpRows ↔ row.pn = true ∧ (row.vs = true → row.vn = true) := by
  obtain ⟨wl, vn, pn, vs, vr⟩ := row
  revert wl vn pn vs vr
  decide

private theorem row_mem_iff (t : ShwSfpCaldata) : t.row ∈ sfpRows ↔ t.Listed := by
  rw [mem_sfpRows_iff]
  simp [ShwSfpCaldata.row, ShwSfpCaldata.Listed]

/-- An entry that agrees with the header fits the row of what it defines. -/
theorem FieldsAgree.fits {head : ShwSfpHeader} {t : ShwSfpCaldata} (agree : FieldsAgree head t) :
    t.row.Fits head t := by
  have text {header entry : Mem} (agrees : Agrees header entry) :
      if decide (entry.headD 0 ≠ 0) then cstr header = cstr entry else entry.headD 0 = 0 := by
    by_cases defined : entry.headD 0 = 0
    · rw [if_neg (by simp only [defined, ne_eq, not_true, decide_false, Bool.false_eq_true,
        not_false_eq_true]), defined]
    · rw [if_pos (decide_eq_true defined)]
      exact agrees defined
  refine ⟨?_, text agree.vn, text agree.pn, text agree.vs, text agree.vr⟩
  by_cases defined : t.txWl = 0
  · simp [ShwSfpCaldata.row, defined]
  · simpa [ShwSfpCaldata.row, defined] using agree.wl defined

/-! ### The entries read -/

private theorem readSfpEntry_sized {libwrCfg : List CfgItem} {index : Nat} {t : ShwSfpCaldata}
    (read : readSfpEntry libwrCfg index = some t) : t.Sized ∧ t.dbEntry = index := by
  obtain ⟨pn, -, rfl⟩ := Option.map_eq_some_iff.mp read
  exact ⟨⟨strncpy_length _ _, strncpy_length _ _, strncpy_length _ _, strncpy_length _ _⟩, rfl⟩

/-- The loop runs down, so the list has the entries with their indices going up. -/
theorem foldl_readSfpEntry (libwrCfg : List CfgItem) (n : Nat) (calList : List ShwSfpCaldata) :
    (List.range n).reverse.foldl
      (fun calList index =>
        match readSfpEntry libwrCfg index with
        | none => calList
        | some sfp => sfp :: calList)
      calList = (List.range n).filterMap (readSfpEntry libwrCfg) ++ calList := by
  induction n generalizing calList with
  | zero => rfl
  | succ n ih =>
    rw [List.range_succ, List.reverse_append, List.reverse_singleton, List.singleton_append,
      List.foldl_cons, ih, List.filterMap_append, List.append_assoc]
    congr 1
    cases read : readSfpEntry libwrCfg n <;> simp [read]

private theorem shwSfpReadDb_eq (libwrCfg : List CfgItem) :
    ∃ n, shwSfpReadDb libwrCfg = (List.range n).filterMap (readSfpEntry libwrCfg) := by
  rw [shwSfpReadDb]
  split
  next => exact ⟨0, rfl⟩
  next nbSfpEntries _ _ =>
    exact ⟨nbSfpEntries.toNat, by rw [foldl_readSfpEntry, List.append_nil]⟩

private theorem shwSfpReadDb_sized (libwrCfg : List CfgItem) :
    ∀ t ∈ shwSfpReadDb libwrCfg, t.Sized := by
  obtain ⟨n, list⟩ := shwSfpReadDb_eq libwrCfg
  intro t member
  rw [list, List.mem_filterMap] at member
  obtain ⟨index, -, read⟩ := member
  exact (readSfpEntry_sized read).1

private theorem shwSfpReadDb_ordered (libwrCfg : List CfgItem) :
    (shwSfpReadDb libwrCfg).Pairwise fun a b => a.dbEntry < b.dbEntry := by
  obtain ⟨n, list⟩ := shwSfpReadDb_eq libwrCfg
  rw [list, List.pairwise_filterMap]
  refine List.pairwise_lt_range.imp fun less t read t' read' => ?_
  rw [(readSfpEntry_sized read).2, (readSfpEntry_sized read').2]
  exact Int.ofNat_lt.mpr less

/-! ### The match -/

def fitsRow (head : ShwSfpHeader) (row : SfpRow) (t : ShwSfpCaldata) : Bool :=
  (row.params head).matches t

private theorem shwSfpGetCalData_eq (calList : List ShwSfpCaldata) (head : ShwSfpHeader) :
    shwSfpGetCalData calList head =
      (firstMatch (fitsRow head) sfpRows calList).map fun found =>
        { found.2 with matchFlags := (found.1.params head).flags } := by
  rw [firstMatch, List.map_findSome?]
  refine congrArg (fun f => sfpRows.findSome? f) (funext fun row => ?_)
  rw [Function.comp_apply, Option.map_map]
  rfl

/-- What the table of the manual says about the entry that is returned, or about the entries if
there is none: the entry fits a row, no entry fits a row above, and it has the lowest index of
those that fit the row. -/
def TableMatch (calList : List ShwSfpCaldata) (head : ShwSfpHeader) : Prop :=
  match shwSfpGetCalData calList head with
  | some t => ∃ row, ∃ e ∈ calList,
      t = { e with matchFlags := (row.params head).flags } ∧ FieldsAgree head e ∧
      row.Fits head e ∧
      (∃ above below, sfpRows = above ++ row :: below ∧
        ∀ r ∈ above, ∀ e' ∈ calList, ¬r.Fits head e') ∧
      ∀ e' ∈ calList, row.Fits head e' → e.dbEntry ≤ e'.dbEntry
  | none => ∀ e ∈ calList, (∀ row ∈ sfpRows, ¬row.Fits head e) ∧ ¬(e.Listed ∧ FieldsAgree head e)

/-- The entry that is found is the first of the first row that fits. -/
theorem shwSfpGetCalData_tableMatch (libwrCfg : List CfgItem) (head : ShwSfpHeader) :
    TableMatch (shwSfpReadDb libwrCfg) head := by
  have sized := shwSfpReadDb_sized libwrCfg
  have ordered := shwSfpReadDb_ordered libwrCfg
  have fits_iff (row : SfpRow) {e : ShwSfpCaldata} (member : e ∈ shwSfpReadDb libwrCfg) :
      fitsRow head row e = true ↔ row.Fits head e := fitsRow_iff row head e (sized e member)
  rw [TableMatch, shwSfpGetCalData_eq]
  cases found : firstMatch (fitsRow head) sfpRows (shwSfpReadDb libwrCfg) with
  | none =>
    -- no row matches, so no entry fits any row
    have unfit := (firstMatch_eq_none_iff _ _ _).mp found
    have no_row (e) (member : e ∈ shwSfpReadDb libwrCfg) (row) (listed : row ∈ sfpRows) :
        ¬row.Fits head e := by
      rw [← fits_iff row member, unfit row listed e member]
      exact Bool.false_ne_true
    intro e member
    refine ⟨no_row e member, fun listed => ?_⟩
    exact no_row e member e.row ((row_mem_iff e).mpr listed.1) listed.2.fits
  | some found_row =>
    obtain ⟨row, e⟩ := found_row
    have first := (firstMatch_eq_some_iff _ _ _ row e).mp found
    have member := first.mem.2
    have fits := (fits_iff row member).mp first.2.1
    refine ⟨row, e, member, rfl, fits.agree, fits, ?_, fun e' member' fit' => ?_⟩
    -- the rows above the one found match nothing
    · obtain ⟨above, below, split, unfit⟩ := first.1
      refine ⟨above, below, split, fun r listed e' member' => ?_⟩
      rw [← fits_iff r member', unfit r listed e' member']
      exact Bool.false_ne_true
    · exact first.least ordered member' ((fits_iff row member').mpr fit')

/-! ### Entries without a row -/

/-- A module of vendor `V`, part number `P`, serial number `S` and no revision, for 1310 nm. -/
def moduleVps : ShwSfpHeader := fun i =>
  if i = 20 then 0x56 else if i = 40 then 0x50 else if i = 68 then 0x53
  else if i = 60 then 0x05 else if i = 61 then 0x1e else 0x20

/-- A database of one entry with these parameters and the wavelengths `1310+1490`. -/
def oneEntry (params : List (List Char × List Char)) : List CfgItem :=
  [⟨nSfpEntries, ['1'], []⟩,
    ⟨sfpKey 0, [], params.map (fun param => (param.1, some param.2)) ++
      [(['w', 'l', '_', 't', 'x', 'r', 'x'],
        some ['1', '3', '1', '0', '+', '1', '4', '9', '0'])]⟩]

/-- `pn=P,vs=S` -/
def serialWithoutName : List CfgItem := oneEntry [(['p', 'n'], ['P']), (['v', 's'], ['S'])]

/-- `pn=,vn=V` -/
def nameWithoutPart : List CfgItem := oneEntry [(['p', 'n'], []), (['v', 'n'], ['V'])]

/-- An entry with a serial number and no vendor name, and one with an empty part number: both agree
with the module, and neither is found. -/
theorem serial_without_name_unmatched :
    ((∃ e ∈ shwSfpReadDb serialWithoutName, FieldsAgree moduleVps e) ∧
      shwSfpGetCalData (shwSfpReadDb serialWithoutName) moduleVps = none) ∧
    ((∃ e ∈ shwSfpReadDb nameWithoutPart, FieldsAgree moduleVps e) ∧
      shwSfpGetCalData (shwSfpReadDb nameWithoutPart) moduleVps = none) := by
  refine ⟨⟨?_, by decide⟩, ?_, by decide⟩
  · decide
  · decide

end WrSwitch.Libwr
