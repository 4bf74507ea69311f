import Mathlib.Data.List.GetD
import WrSwitch.Sdb.Calls
import WrSwitch.Sdb.Placement

/-!
# Scans of an image

A scan of the image of a tree returns the records of the tree in pre-order, as long as every table
is in the image as it was written.
-/
namespace WrSwitch.Sdb

open Machine

/-! ### The records of an image -/

private theorem isBridge_deviceRecord (f : File) (rstart addrLast : Nat) :
    isBridge (deviceRecord f rstart addrLast) = false := by
  rw [isBridge, deviceRecord, recordType_component (by simp [length_bytesOf])]
  decide

private theorem isBridge_bridgeRecord (name : List Byte) (ids : Ids) (rstart addrLast : Nat) :
    isBridge (bridgeRecord name ids rstart addrLast) = true := by
  rw [isBridge, bridgeRecord, recordType_component (by simp [length_bytesOf])]
  decide

private theorem sdbChild_bridgeRecord (name : List Byte) (ids : Ids) (rstart addrLast : Nat) :
    sdbChild (bridgeRecord name ids rstart addrLast) = rstart % 2 ^ 64 :=
  field_bytesOf [] 8 rstart ⟨_, rfl⟩ rfl

private theorem addrFirst_bridgeRecord (name : List Byte) (ids : Ids) (rstart addrLast : Nat) :
    addrFirst (bridgeRecord name ids rstart addrLast) = rstart % 2 ^ 64 :=
  addrFirst_component (length_bytesOf 8 rstart) rstart addrLast name ids sdbTypeBridge

theorem length_headFields (head : Head) : (bytesOf 4 sdbMagic ++ bytesOf 2 head.records ++
    bytesOf 1 1 ++ bytesOf 1 sdbData).length = 8 := by
  simp [length_bytesOf]

private theorem isDirectory_headRecord (head : Head) : isDirectory (headRecord head) = true := by
  have type : recordType (headRecord head) = sdbTypeInterconnect :=
    recordType_component (length_headFields head) _ _ _ _ _
  have magic : field (headRecord head) 0 4 = sdbMagic := by
    exact (field_bytesOf [] 4 sdbMagic (by simp [headRecord]) rfl).trans (by decide)
  exact decide_eq_true ⟨type, magic⟩

private theorem isBridge_headRecord (head : Head) : isBridge (headRecord head) = false :=
  isBridge_of_directory (isDirectory_headRecord head)

private theorem sdbRecords_headRecord (head : Head) :
    sdbRecords (headRecord head) = head.records % 65536 :=
  field_bytesOf (bytesOf 4 sdbMagic) 2 head.records (by simp [headRecord]) (length_bytesOf 4 _)

private theorem getD_fillName {name : List Byte} (short : name.length < 19) :
    (fillName name).getD name.length 0 = 0x20 := by
  rw [fillName, List.take_of_length_le (by omega), List.getD_eq_getElem?_getD,
    List.getElem?_append_right (Nat.le_refl _), Nat.sub_self, List.getElem?_replicate,
    if_pos (by omega)]
  rfl

private theorem take_fillName {name : List Byte} (short : name.length ≤ 19) :
    (fillName name).take name.length = name := by
  rw [fillName, List.take_of_length_le short, List.take_left]

/-- Names that fit and have no blank are told apart. -/
theorem hasName_iff {name other : List Byte} {r : Record} (filled : productName r = fillName other)
    (short : name.length ≤ 19) (short' : other.length ≤ 19) (plain : 0x20 ∉ name)
    (plain' : 0x20 ∉ other) : hasName name r = true ↔ name = other := by
  have beginning : ∀ i < other.length, (fillName other).getD i 0 = other.getD i 0 := by
    intro i early
    rw [fillName, List.take_of_length_le short', List.getD_eq_getElem?_getD,
      List.getElem?_append_left early, List.getD_eq_getElem?_getD]
  rw [hasName, filled, decide_eq_true_eq]
  constructor
  · rintro ⟨same, blank⟩
    rcases Nat.lt_trichotomy name.length other.length with fewer | equal | more
    · -- the blank behind the name would be in the other one
      refine absurd ?_ plain'
      rw [← blank (by omega), beginning _ fewer, List.getD_eq_getElem _ 0 fewer]
      exact List.getElem_mem fewer
    · rw [← same, equal, take_fillName short']
    · -- the name would have the blank that fills the other one
      refine absurd ?_ plain
      have inside : name.getD other.length 0 = 0x20 := by
        rw [← same, List.getD_eq_getElem?_getD, List.getElem?_take, if_pos more,
          ← List.getD_eq_getElem?_getD, getD_fillName (by omega)]
      rw [List.getD_eq_getElem _ 0 more] at inside
      rw [← inside]
      exact List.getElem_mem more
  · rintro rfl
    exact ⟨take_fillName short, getD_fillName⟩

/-! ### The next entry of a directory -/

private theorem cdUp_to (nleft : Nat → Int) {depth d : Nat} (deep : d ≤ depth)
    (done : ∀ j, d < j → j ≤ depth → nleft j = 0) (some_left : nleft d ≠ 0) :
    cdUp nleft depth = some d := by
  induction depth with
  | zero =>
    obtain rfl : d = 0 := Nat.le_zero.mp deep
    rw [cdUp, if_neg some_left]
  | succ depth ih =>
    rw [cdUp]
    rcases Nat.lt_or_eq_of_le deep with above | rfl
    · rw [if_pos (done (depth + 1) above (Nat.le_refl _))]
      exact ih (by omega) fun j below inside => done j below (by omega)
    · rw [if_neg some_left]

private theorem cdUp_none (nleft : Nat → Int) {depth : Nat} (done : ∀ j ≤ depth, nleft j = 0) :
    cdUp nleft depth = none := by
  induction depth with
  | zero => rw [cdUp, if_pos (done 0 (Nat.le_refl 0))]
  | succ depth ih =>
    rw [cdUp, if_pos (done _ (Nat.le_refl _))]
    exact ih fun j inside => done j (by omega)

/-- A scan is about to read the entries of a directory of depth `d`, whose table goes on at
`addr`. The directories in it have been read. -/
structure At (dev : Device) (fs : Sdbfs) (d base addr left : Nat) : Prop where
  same : fs.dev = dev
  deep : d ≤ fs.depth
  done : ∀ j, d < j → j ≤ fs.depth → fs.nleft j = 0
  nleft : fs.nleft d = left
  this : fs.this d = BitVec.ofNat 32 addr
  base : fs.base d = BitVec.ofNat 32 base
  current : ∃ r, fs.currentp = some r ∧ isBridge r = false

/-- The directories above are left as they are. -/
def SameAbove (d : Nat) (fs fs' : Sdbfs) : Prop :=
  ∀ j < d, fs'.nleft j = fs.nleft j ∧ fs'.this j = fs.this j ∧ fs'.base j = fs.base j

theorem SameAbove.trans {d : Nat} {a b c : Sdbfs} (first : SameAbove d a b)
    (second : SameAbove d b c) : SameAbove d a c := by
  intro j above
  obtain ⟨nleft, this, base⟩ := first j above
  obtain ⟨nleft', this', base'⟩ := second j above
  exact ⟨nleft'.trans nleft, this'.trans this, base'.trans base⟩

section Scan

variable {methods : Methods} (sound : methods.Sound) {dev : Device}
  (asIs : dev.convert32 = false)
include sound asIs

private theorem readEntry_holds {addr : Nat} {r : Record} (holds : HoldsAt dev.image addr r)
    (length : r.length = recordSize) (small : addr + recordSize ≤ intReach) :
    readEntry methods dev (BitVec.ofNat 32 addr) = some r := by
  have place : (BitVec.ofNat 32 addr).toNat = addr := by
    simp only [intReach, recordSize] at small
    rw [BitVec.toNat_ofNat, Nat.mod_eq_of_lt (by omega)]
  obtain ⟨inside, taken⟩ := holds
  rw [length] at inside taken
  rw [readEntry_inside sound ⟨by rwa [place], by rwa [place]⟩, recordAt, asIs, place, taken]
  rfl

/-- The next entry is read. -/
theorem scanOn_entry {fs : Sdbfs} {d base addr left : Nat} {r : Record}
    (state : At dev fs d base addr (left + 1)) (holds : HoldsAt dev.image addr r)
    (length : r.length = recordSize) (small : addr + recordSize ≤ intReach) :
    scanOn methods fs = some (scanOut (takeEntry fs d r) r) := by
  obtain ⟨current, shown, plain⟩ := state.current
  have up : cdUp fs.nleft fs.depth = some d :=
    cdUp_to fs.nleft state.deep state.done (by rw [state.nleft]; omega)
  have read := readEntry_holds sound asIs holds length small
  rw [scanOn, shown, Option.bind_eq_bind, Option.bind_some,
    if_neg (fun both => by simp [plain] at both), scanNext, up]
  simp only [state.same, state.this, read, Option.bind_eq_bind, Option.bind_some]

omit sound asIs in
/-- What has been read is taken off the directory. -/
theorem takeEntry_left {fs : Sdbfs} {d base addr left : Nat} (r : Record)
    (state : At dev fs d base addr (left + 1)) :
    (takeEntry fs d r).nleft d = left ∧
      (takeEntry fs d r).this d = BitVec.ofNat 32 (addr + recordSize) := by
  constructor
  · simp only [takeEntry, Function.update_self, state.nleft]
    omega
  · simp only [takeEntry, Function.update_self, state.this, BitVec.ofNat_add]

omit sound asIs in
private theorem takeEntry_above (fs : Sdbfs) (d : Nat) (r : Record) :
    SameAbove d fs (scanOut (takeEntry fs d r) r).1 := by
  intro j above
  have other : j ≠ d := Nat.ne_of_lt above
  simp only [scanOut, takeEntry, Function.update_of_ne other, and_self]

omit sound asIs in
/-- After a record that is no bridge, the scan goes on in the same directory. -/
theorem takeEntry_at {fs : Sdbfs} {d base addr left : Nat} {r : Record}
    (state : At dev fs d base addr (left + 1)) (plain : isBridge r = false) :
    At dev (scanOut (takeEntry fs d r) r).1 d base (addr + recordSize) left where
  same := state.same
  deep := Nat.le_refl d
  done := fun _ below inside => absurd (Nat.lt_of_lt_of_le below inside) (Nat.lt_irrefl d)
  nleft := (takeEntry_left r state).1
  this := (takeEntry_left r state).2
  base := state.base
  current := ⟨r, rfl, plain⟩

omit sound asIs in
/-- A directory whose head was just read has its other records left. -/
theorem openDirectory_at {fs : Sdbfs} {d base addr : Nat} {head : Head} (same : fs.dev = dev)
    (this : fs.this d = BitVec.ofNat 32 addr) (at_base : fs.base d = BitVec.ofNat 32 base)
    (few : head.records < 65536) (counted : 0 < head.records) :
    At dev (scanOut (openDirectory fs d (headRecord head)) (headRecord head)).1 d base
      (addr + recordSize) (head.records - 1) where
  same := same
  deep := Nat.le_refl d
  done := fun _ below inside => absurd (Nat.lt_of_lt_of_le below inside) (Nat.lt_irrefl d)
  nleft := by
    simp only [scanOut, openDirectory, Function.update_self, sdbRecords_headRecord,
      Nat.mod_eq_of_lt few]
    omega
  this := by simp only [scanOut, openDirectory, Function.update_self, this, BitVec.ofNat_add]
  base := at_base
  current := ⟨_, rfl, isBridge_headRecord head⟩

/-- The directory of a bridge that was just returned is entered. -/
theorem scanOn_enter {fs : Sdbfs} {d base addr : Nat} {bridge : Record} {head : Head}
    (same : fs.dev = dev) (depth : fs.depth = d) (deeper : d + 1 < sdbfsDepth)
    (current : fs.currentp = some bridge) (type : isBridge bridge = true)
    (child : fs.base d + BitVec.ofNat 32 (sdbChild bridge) = BitVec.ofNat 32 addr)
    (first : fs.base d + BitVec.ofNat 32 (addrFirst bridge) = BitVec.ofNat 32 base)
    (holds : HoldsAt dev.image addr (headRecord head)) (small : addr + recordSize ≤ intReach)
    (few : head.records < 65536) (counted : 0 < head.records) :
    ∃ after, scanOn methods fs = some (after, some (headRecord head)) ∧
      after.currentp = some (headRecord head) ∧ after.depth = d + 1 ∧
      At dev after (d + 1) base (addr + recordSize) (head.records - 1) ∧
      SameAbove (d + 1) fs after := by
  -- the current record leads to the directory
  have inner : (enterBridge fs bridge).this (d + 1) = BitVec.ofNat 32 addr := by
    simp only [enterBridge, depth, Function.update_self, child]
  have read := readEntry_holds sound asIs holds (length_headRecord head) small
  have outer : (enterBridge fs bridge).base (d + 1) = BitVec.ofNat 32 base := by
    simp only [enterBridge, depth, Function.update_self, first]
  refine ⟨(scanOut (openDirectory (enterBridge fs bridge) (d + 1) (headRecord head))
    (headRecord head)).1, ?_, rfl, rfl, openDirectory_at same inner outer few counted, ?_⟩
  -- the head of the directory is read as its first record
  · rw [scanOn, current, Option.bind_eq_bind, Option.bind_some,
      if_pos ⟨type, by rw [depth]; exact deeper⟩, depth, scanNewdir, inner,
      show (enterBridge fs bridge).dev = dev from same, read]
    simp only [Option.bind_eq_bind, Option.bind_some, isDirectory_headRecord, if_true]
    rfl
  · intro j above
    have other : j ≠ d + 1 := Nat.ne_of_lt above
    simp only [scanOut, openDirectory, enterBridge, depth, Function.update_of_ne other, and_self]

/-! ### All entries -/

omit sound asIs in
variable (methods) in
/-- A scan goes on with these records, each in a directory of the given base, and then ends. -/
def Visits : Sdbfs → List (Record × Nat) → Prop
  | fs, [] => ∃ after, scanOn methods fs = some (after, none)
  | fs, (r, base) :: more => ∃ after, scanOn methods fs = some (after, some r) ∧
      (after.dev = fs.dev ∧ after.currentp = some r ∧
        after.base after.depth = BitVec.ofNat 32 base) ∧ Visits after more

omit sound asIs in
/-- Where nothing is left, the scan ends. -/
theorem visits_nil {fs : Sdbfs} {base addr : Nat} (state : At dev fs 0 base addr 0) :
    Visits methods fs [] := by
  obtain ⟨current, shown, plain⟩ := state.current
  have up : cdUp fs.nleft fs.depth = none := by
    refine cdUp_none fs.nleft fun j inside => ?_
    rcases Nat.eq_zero_or_pos j with rfl | below
    · exact state.nleft
    · exact state.done j below inside
  exact ⟨{ fs with depth := 0 }, by simp [scanOn, scanNext, shown, plain, up]⟩

/-- A bridge is returned and then the head of its directory, whose entries come next. -/
theorem visits_bridge {fs : Sdbfs} {d base addr left pos addrLast : Nat} {name : List Byte}
    {ids : Ids} {head : Head} {more : List (Record × Nat)}
    (state : At dev fs d base addr (left + 1)) (deeper : d + 1 < sdbfsDepth)
    (holds : HoldsAt dev.image addr (bridgeRecord name ids pos addrLast))
    (small : addr + recordSize ≤ intReach)
    (inside : HoldsAt dev.image (base + pos) (headRecord head))
    (small' : base + pos + recordSize ≤ intReach)
    (few : head.records < 65536) (counted : 0 < head.records)
    (rest : ∀ fs', At dev fs' (d + 1) (base + pos) (base + pos + recordSize) (head.records - 1) →
      fs'.nleft d = left → fs'.this d = BitVec.ofNat 32 (addr + recordSize) →
      fs'.base d = BitVec.ofNat 32 base → SameAbove d fs fs' → Visits methods fs' more) :
    Visits methods fs
      ((bridgeRecord name ids pos addrLast, base) :: (headRecord head, base + pos) :: more) := by
  have length := length_bridgeRecord name ids pos addrLast
  -- an address within reach is not cut
  have reach : pos % 2 ^ 64 = pos := by
    simp only [intReach, recordSize] at small'
    exact Nat.mod_eq_of_lt (by omega)
  generalize bridge : bridgeRecord name ids pos addrLast = r at holds length
  have type : isBridge r = true := by rw [← bridge, isBridge_bridgeRecord]
  have child : sdbChild r = pos := by rw [← bridge, sdbChild_bridgeRecord, reach]
  have first : addrFirst r = pos := by rw [← bridge, addrFirst_bridgeRecord, reach]
  -- the bridge is read first, then the head behind it
  have read := scanOn_entry sound asIs state holds length small
  have above := takeEntry_above fs d r
  obtain ⟨left', this'⟩ := takeEntry_left r state
  have sum : fs.base d + BitVec.ofNat 32 pos = BitVec.ofNat 32 (base + pos) := by
    rw [state.base, BitVec.ofNat_add]
  obtain ⟨entered, returned, current, depth, at_sub, same⟩ := scanOn_enter sound asIs
    (show (scanOut (takeEntry fs d r) r).1.dev = dev from state.same) rfl deeper rfl type
    (by rw [child]; exact sum) (by rw [first]; exact sum) inside small' few counted
  obtain ⟨nleft, this, unmoved⟩ := same d (Nat.lt_succ_self d)
  refine ⟨_, read, ⟨rfl, rfl, state.base⟩, entered, returned, ⟨?_, current, ?_⟩, ?_⟩
  · exact at_sub.same.trans state.same.symm
  · rw [depth]
    exact at_sub.base
  · exact rest entered at_sub (nleft.trans left') (this.trans this') (unmoved.trans state.base)
      (above.trans fun j before => same j (Nat.lt_succ_of_lt before))

/-- The entries of a directory are visited in pre-order, each sub-directory behind its bridge. -/
theorem visits_entries {b : Nat} (positive : 0 < b) (t : Entries) {d base pos addr : Nat}
    {fs : Sdbfs} {more : List (Record × Nat)} (nested : d + t.height < sdbfsDepth)
    (below : t.Below b base pos)
    (table : HoldsAt dev.image addr (t.placed b base pos).records.flatten)
    (small : addr + t.count * recordSize ≤ intReach)
    (pieces : ∀ p ∈ t.pieces b base pos, p.2 ≠ [] → HoldsAt dev.image p.1 p.2)
    (state : At dev fs d base addr t.count)
    (rest : ∀ fs', At dev fs' d base (addr + t.count * recordSize) 0 → SameAbove d fs fs' →
      Visits methods fs' more) :
    Visits methods fs ((t.placed b base pos).preorder base ++ more) := by
  induction t generalizing d base pos addr fs more with
  | nil => exact rest fs state fun _ _ => ⟨rfl, rfl, rfl⟩
  | file f others ih =>
    have length := length_deviceRecord f pos (pos + f.room b - 1)
    change HoldsAt dev.image addr (deviceRecord f pos (pos + f.room b - 1) ++
      (others.placed b base (roundUp b (pos + f.room b))).records.flatten) at table
    have own := table.left
    have behind := table.right
    simp only [Entries.count, Nat.succ_mul] at small
    rw [length] at behind
    refine ⟨_, scanOn_entry sound asIs state own length (by omega),
      ⟨rfl, rfl, state.base⟩, ?_⟩
    refine ih nested below behind (by omega)
      (fun p member => pieces p (List.mem_cons_of_mem _ member))
      (takeEntry_at state (isBridge_deviceRecord _ _ _)) fun fs' left above => ?_
    refine rest fs' ?_ ((takeEntry_above fs d _).trans above)
    rw [Entries.count, Nat.succ_mul, Nat.add_comm _ recordSize, ← Nat.add_assoc]
    exact left
  | dir name ids dot sub others ihSub ih =>
    obtain ⟨few, inner, later⟩ := below
    rw [Entries.height] at nested
    have deeper : d + 1 + sub.height < sdbfsDepth := by omega
    have length := length_bridgeRecord name ids pos (pos + sub.lastAddr b - 1)
    change HoldsAt dev.image addr (bridgeRecord name ids pos (pos + sub.lastAddr b - 1) ++
      (others.placed b base (roundUp b (pos + sub.lastAddr b))).records.flatten) at table
    have own := table.left
    have behind := table.right
    simp only [Entries.count, Nat.succ_mul] at small
    rw [length] at behind
    have begun := below_pos positive sub inner
    have start := table_le_start positive sub
    rw [Nat.succ_mul] at start
    rw [pieces_dir] at pieces
    have whole : HoldsAt dev.image (base + pos) (headRecord (headOf b dot (base + pos) sub) ++
        (sub.placed b (base + pos) (sub.start b)).records.flatten) := by
      rw [← table_eq]
      exact pieces _ (List.mem_append_left _ List.mem_cons_self) (table_ne_nil b dot _ _ sub)
    have inside := whole.left
    have records := whole.right
    rw [length_headRecord] at records
    change Visits methods fs ((bridgeRecord name ids pos (pos + sub.lastAddr b - 1), base) ::
      (headRecord (headOf b dot (base + pos) sub), base + pos) ::
        (((sub.placed b (base + pos) (sub.start b)).preorder (base + pos) ++
          (others.placed b base (roundUp b (pos + sub.lastAddr b))).preorder base) ++ more))
    refine visits_bridge sound asIs state (by omega) own (by omega) inside (by omega) few
      (Nat.succ_pos _) fun fs' at_sub nleft this unmoved above => ?_
    rw [List.append_assoc]
    refine ihSub deeper inner records (by omega)
      (fun p member => pieces p (List.mem_append_left _ (List.mem_cons_of_mem _ member))) at_sub
      fun fs'' finished kept => ?_
    -- back in the directory of the bridge
    obtain ⟨nleft', this', base'⟩ := kept d (Nat.lt_succ_self d)
    have back : At dev fs'' d base (addr + recordSize) others.count := by
      refine ⟨finished.same, Nat.le_of_succ_le finished.deep, fun j below inside => ?_,
        nleft'.trans nleft, this'.trans this, base'.trans unmoved, finished.current⟩
      rcases Nat.lt_or_eq_of_le below with deeper | rfl
      · exact finished.done j deeper inside
      · exact finished.nleft
    refine ih (by omega) later behind (by omega)
      (fun p member => pieces p (List.mem_append_right _ member)) back fun last left above' => ?_
    refine rest last ?_ (above.trans (.trans (fun j before => kept j (by omega)) above'))
    rw [Entries.count, Nat.succ_mul, Nat.add_comm _ recordSize, ← Nat.add_assoc]
    exact left

/-! ### The whole image -/

/-- A new scan reads the head of the root directory. -/
theorem scanFirst_root {fs : Sdbfs} {head : Head} (same : fs.dev = dev)
    (entry : dev.entrypoint = 0) (holds : HoldsAt dev.image 0 (headRecord head))
    (few : head.records < 65536) (counted : 0 < head.records) :
    ∃ after, scanFirst methods fs = some (after, some (headRecord head)) ∧
      At dev after 0 0 recordSize (head.records - 1) := by
  have read := readEntry_holds sound asIs holds (length_headRecord head) (by decide)
  have start : (restart fs).this 0 = BitVec.ofNat 32 0 := by
    simp only [restart, Function.update_self, same, entry, BitVec.ofNat_eq_ofNat]
  have root : (restart fs).base 0 = BitVec.ofNat 32 0 := by
    simp only [restart, Function.update_self, BitVec.ofNat_eq_ofNat]
  have opened := openDirectory_at (show (restart fs).dev = dev from same) start root few counted
  rw [Nat.zero_add] at opened
  refine ⟨(scanOut (openDirectory (restart fs) 0 (headRecord head)) (headRecord head)).1, ?_,
    opened⟩
  rw [scanFirst, scanNewdir, start, show (restart fs).dev = dev from same, read]
  simp only [Option.bind_eq_bind, Option.bind_some, isDirectory_headRecord, if_true]
  rfl

/-- A new scan of an image that has every table and file. -/
theorem scanFirst_visits {b : Nat} (positive : 0 < b) {dot : Ids} {t : Entries} {fs : Sdbfs}
    (same : fs.dev = dev) (entry : dev.entrypoint = 0) (nested : t.height < sdbfsDepth)
    (few : t.count + 1 < 65536) (below : t.Below b 0 (t.start b))
    (pieces : ∀ p ∈ t.dirPieces b dot 0, p.2 ≠ [] → HoldsAt dev.image p.1 p.2) :
    ∃ after, scanFirst methods fs = some (after, some (headRecord (headOf b dot 0 t))) ∧
      after.dev = dev ∧ Visits methods after ((t.placed b 0 (t.start b)).preorder 0) := by
  have whole := pieces _ List.mem_cons_self (table_ne_nil b dot 0 _ t)
  rw [table_eq] at whole
  -- behind the record of the directory itself stand those of its entries
  have records := whole.right
  rw [length_headRecord, Nat.zero_add] at records
  have reach := below_pos positive t below
  have table := table_le_start positive t
  rw [Nat.succ_mul] at table
  obtain ⟨after, returned, state⟩ := scanFirst_root sound asIs same entry whole.left few
    (Nat.succ_pos _)
  refine ⟨after, returned, state.same, ?_⟩
  rw [← List.append_nil (Sdbf.preorder 0 _)]
  exact visits_entries sound asIs positive t (by omega) below records (by omega)
    (fun p member => pieces p (List.mem_cons_of_mem _ member)) state
    fun _ ended _ => visits_nil ended

end Scan

end WrSwitch.Sdb
