import WrSwitch.Libwr.SfpBuses

/-!
# The EEPROMs of the SFPs as memories

Seen through `shw_sfp_read`, `shw_sfp_write` and `shw_sfp_module_scan`, each SFP that is plugged
in is an array of cells, whatever happens on the wires on the way to it.
-/
namespace WrSwitch.Libwr

open Machine.TwoWire

/-! ### Writing on the wires -/

/-- A transfer of `shw_sfp_write`. -/
def issue (hw : SfpBuses) (t : I2cTransfer) : Int × (Nat → Byte) × SfpBuses :=
  i2cTransfer t.bus t.address t.written.length t.toRead (fun i => t.written.getD i 0) hw

/-- The buses after some transfers. -/
def issueAll (hw : SfpBuses) (ts : List I2cTransfer) : SfpBuses :=
  ts.foldl (fun hw t => (issue hw t).2.2) hw

/-- What the last transfer returned. -/
def lastReply (hw : SfpBuses) (ts : List I2cTransfer) : Int :=
  match ts.getLast? with
  | none => 0
  | some t => (issue (issueAll hw ts.dropLast) t).1

def sfpWrite (num : Int) (addr : BitVec 32) (off len : Int) (buf : Nat → Byte) (hw : SfpBuses) :
    Int × SfpBuses :=
  let r := shwSfpWrite (lastReply hw) num addr off len buf
  (r.1, issueAll hw r.2)

/-! ### Calls -/

inductive SfpCall where
  | read (num : Int) (dom : Bool) (off len : Nat) (buf : Nat → Byte)
  | write (num : Int) (dom : Bool) (off len : Int) (buf : Nat → Byte)
  | scan

/-- The return value, and the buffer of a call that reads. -/
structure SfpAnswer where
  ret : Int
  buf : Nat → Byte

def sfpCall (hw : SfpBuses) : SfpCall → SfpAnswer × SfpBuses
  | .read num dom off len buf =>
    let r := shwSfpRead num (chipAddr dom) off len buf hw
    (⟨r.1, r.2.1⟩, r.2.2)
  | .write num dom off len buf =>
    let r := sfpWrite num (chipAddr dom) off len buf hw
    (⟨r.1, buf⟩, r.2)
  | .scan =>
    let r := shwSfpModuleScan hw
    (⟨r.1.toNat, fun _ => 0⟩, r.2)

/-- The calls one after the other, with their answers. -/
def sfpCalls : SfpBuses → List SfpCall → List SfpAnswer × SfpBuses
  | hw, [] => ([], hw)
  | hw, c :: cs =>
    let r := sfpCall hw c
    let q := sfpCalls r.2 cs
    (r.1 :: q.1, q.2)

/-! ### Memories -/

/-- The cells of the EEPROMs that are there. -/
abbrev SfpMemory := Nat → Bool → Option (Byte → Byte)

/-- Cells that were written, from `off` on. -/
def overwrite (cells : Byte → Byte) (off len : Nat) (buf : Nat → Byte) (c : Byte) : Byte :=
  if off ≤ c.toNat ∧ c.toNat < off + len then buf (c.toNat - off) else cells c

def SfpMemory.read (s : SfpMemory) (num : Int) (dom : Bool) (off len : Nat) (buf : Nat → Byte) :
    SfpAnswer :=
  if 0 ≤ num ∧ num ≤ 17 then
    match s num.toNat dom with
    | some cells =>
      ⟨len, fun i => if i < len then cells (BitVec.ofNat 8 (off + i)) else buf i⟩
    | none => ⟨if len = 0 then 0 else -1, buf⟩
  else ⟨-1, buf⟩

def SfpMemory.write (s : SfpMemory) (num : Int) (dom : Bool) (off len : Int) (buf : Nat → Byte) :
    SfpAnswer × SfpMemory :=
  if SfpRequest num off len then
    match s num.toNat dom with
    | some cells => (⟨len, buf⟩, fun id d => if id = num.toNat ∧ d = dom then
        some (overwrite cells off.toNat len.toNat buf) else s id d)
    | none => (⟨-1, buf⟩, s)
  else (⟨-1, buf⟩, s)

def SfpMemory.mark (s : SfpMemory) (mask : BitVec 32) (id : Nat) : BitVec 32 :=
  if (s id false).isSome then mask ||| 1 <<< id else mask

/-- The places whose first EEPROM is there. -/
def SfpMemory.scan (s : SfpMemory) : BitVec 32 := (List.range 18).foldl s.mark 0

def SfpMemory.call (s : SfpMemory) : SfpCall → SfpAnswer × SfpMemory
  | .read num dom off len buf => (s.read num dom off len buf, s)
  | .write num dom off len buf => s.write num dom off len buf
  | .scan => (⟨s.scan.toNat, fun _ => 0⟩, s)

def SfpMemory.calls : SfpMemory → List SfpCall → List SfpAnswer × SfpMemory
  | s, [] => ([], s)
  | s, c :: cs =>
    let r := s.call c
    let q := SfpMemory.calls r.2 cs
    (r.1 :: q.1, q.2)

/-- What the EEPROMs have to say. -/
def SfpLinks.memory (hw : SfpLinks) : SfpMemory := fun id dom =>
  if id < 18 ∧ (hw.chip id dom).present = true then some (hw.chip id dom).cells else none

/-! ### Reading and scanning -/

private theorem store_apply (bytes : List Byte) (data : Nat → Byte) (k i : Nat) :
    store data k bytes i = if k ≤ i then (bytes[i - k]?).getD (data i) else data i := by
  induction bytes generalizing data k with
  | nil => simp [store]
  | cons byte bytes ih =>
    rw [store, ih]
    rcases Nat.lt_trichotomy i k with before | rfl | behind
    · rw [if_neg (by omega), if_neg (by omega), Function.update_of_ne (by omega)]
    · simp
    · have index : i - k = i - (k + 1) + 1 := by omega
      rw [if_pos (by omega), if_pos (by omega), Function.update_of_ne (by omega), index,
        List.getElem?_cons_succ]

private theorem memory_setChip (hw : SfpLinks) {id : Nat} (last : id < 18) (dom : Bool)
    (e : Eeprom) :
    (hw.setChip id dom e).memory = fun id' d =>
      if id' = id ∧ d = dom then (if e.present then some e.cells else none)
      else hw.memory id' d := by
  funext id' d
  unfold SfpLinks.memory
  by_cases last' : id' < 18
  · by_cases here : id' = id ∧ d = dom
    · obtain ⟨rfl, rfl⟩ := here
      simp [chip_setChip, last]
    · rw [chip_setChip_ne hw last last' here, if_neg here]
  · have other : ¬(id' = id ∧ d = dom) := by omega
    simp [last', other]

/-- Addressing an EEPROM changes nothing that is stored. -/
theorem memory_same (hw : SfpLinks) {id : Nat} (last : id < 18) (dom : Bool) {e : Eeprom}
    (present : e.present = (hw.chip id dom).present) (cells : e.cells = (hw.chip id dom).cells) :
    (hw.setChip id dom e).memory = hw.memory := by
  rw [memory_setChip hw last]
  funext id' d
  split
  next here =>
    obtain ⟨rfl, rfl⟩ := here
    rw [present, cells]
    simp [SfpLinks.memory, last]
  next => rfl

private theorem memory_opened (hw : SfpLinks) (id : Nat) : (hw.opened id).memory = hw.memory := by
  unfold SfpLinks.memory
  simp only [opened_chip]

private theorem transfer_nothing (bus : SfpBus) (addr : BitVec 32) (data : Nat → Byte)
    (hw : SfpBuses) :
    i2cTransfer bus addr 0 0 data hw = (0, data, hw) := by
  cases bus <;> rfl

/-- The read that follows when the way is open. -/
theorem readFrom_buses {hw : SfpLinks} (idle : hw.Idle) {id : Nat} (last : id < 18)
    (way : hw.Open id) (dom : Bool) (len : Nat) (buf : Nat → Byte) :
    ∃ hw' : SfpLinks, hw'.Idle ∧ hw'.memory = hw.memory ∧
      i2cTransfer (sfpBus id) (chipAddr dom) 0 len buf hw.buses =
        if (hw.chip id dom).present then
          ((len : Int), fun i => if i < len then
            (hw.chip id dom).cells ((hw.chip id dom).pointer + BitVec.ofNat 8 i) else buf i, hw'.buses)
        else (if len = 0 then 0 else -1, buf, hw'.buses) := by
  by_cases none : len = 0
  · subst none
    refine ⟨hw, idle, rfl, ?_⟩
    rw [transfer_nothing]
    split <;> rfl
  · -- the chip sends from where its pointer stands
    have carried := transfer_chip idle way dom (.inl ⟨rfl, none⟩) buf
    cases present : (hw.chip id dom).present with
    | false =>
      refine ⟨hw, idle, rfl, ?_⟩
      rw [carried, present, if_neg Bool.false_ne_true, if_neg Bool.false_ne_true, if_neg none]
      rfl
    | true =>
      refine ⟨_, idle.setChip id dom ((hw.chip id dom).readOut len), memory_same hw last dom rfl rfl,
        ?_⟩
      rw [carried, present, if_pos rfl, if_neg none, if_pos rfl]
      refine congrArg (Prod.mk (len : Int)) (congrArg (·, _) ?_)
      funext i
      rw [store_apply, if_pos (Nat.zero_le i), Nat.sub_zero, Eeprom.cellsAt, List.getElem?_map]
      split
      next inside => rw [List.getElem?_range inside]; rfl
      next outside => rw [List.getElem?_eq_none (by simpa using outside)]; rfl

/-- Once the way is open there is one transfer for the offset, and one for the bytes. -/
theorem shwSfpRead_eq {hw : SfpLinks} (idle : hw.Idle) {num : Int} (valid : 0 ≤ num ∧ num ≤ 17)
    (dom : Bool) (off len : Nat) (buf : Nat → Byte) :
    shwSfpRead num (chipAddr dom) off len buf hw.buses =
      i2cTransfer (sfpBus num.toNat) (chipAddr dom) 0 len buf
        (i2cTransfer (sfpBus num.toNat) (chipAddr dom) 1 0 (fun _ => BitVec.ofInt 8 off)
          (hw.opened num.toNat).buses).2.2 := by
  have own : shwSfpId num = num := if_neg (by omega)
  unfold shwSfpRead
  rw [own, if_neg (by omega)]
  dsimp only
  rw [open_buses idle, if_pos (by omega)]

private theorem read_buses {hw : SfpLinks} (idle : hw.Idle) (num : Int) (dom : Bool) (off len : Nat)
    (buf : Nat → Byte) :
    ∃ hw' : SfpLinks, hw'.Idle ∧ hw'.memory = hw.memory ∧
      shwSfpRead num (chipAddr dom) off len buf hw.buses =
        ((hw.memory.read num dom off len buf).ret, (hw.memory.read num dom off len buf).buf,
          hw'.buses) := by
  by_cases valid : 0 ≤ num ∧ num ≤ 17
  · have last : num.toNat < 18 := by omega
    -- the bus is switched to the SFP, the offset is written, then the bytes are read
    have code := shwSfpRead_eq idle valid dom off len buf
    have chip := opened_chip hw num.toNat num.toNat dom
    have memory := memory_opened hw num.toNat
    have idle' := opened_idle idle num.toNat
    have way := opened_open hw last
    generalize hw.opened num.toNat = hw1 at code chip memory idle' way
    have addressed := transfer_chip idle' way dom (.inr ⟨one_ne_zero, rfl⟩)
      (fun _ => BitVec.ofInt 8 off)
    rw [code, addressed]
    unfold SfpMemory.read
    rw [if_pos valid]
    cases present : (hw.chip num.toNat dom).present with
    | false =>
      rw [chip, present, if_neg Bool.false_ne_true]
      obtain ⟨hw', free, kept, read⟩ := readFrom_buses idle' last way dom len buf
      refine ⟨hw', free, kept.trans memory, ?_⟩
      rw [read, chip, present, if_neg Bool.false_ne_true]
      simp [SfpLinks.memory, present]
    | true =>
      rw [chip, present, if_pos rfl, if_pos rfl]
      dsimp only
      -- one byte written only moves the pointer
      have pointed : (hw.chip num.toNat dom).written
          ((List.range 1).map fun _ => BitVec.ofInt 8 off) =
            { hw.chip num.toNat dom with pointer := BitVec.ofInt 8 off, fresh := false } := rfl
      generalize (hw.chip num.toNat dom).written
        ((List.range 1).map fun _ => BitVec.ofInt 8 off) = e at pointed
      -- and so the memory is the same
      have kept : (hw1.setChip num.toNat dom e).memory = hw1.memory := by
        apply memory_same hw1 last
        · rw [pointed, chip]
        · rw [pointed, chip]
      obtain ⟨hw', free, same, read⟩ := readFrom_buses (idle'.setChip num.toNat dom e) last
        (way.setChip num.toNat dom e) dom len buf
      refine ⟨hw', free, same.trans (kept.trans memory), ?_⟩
      have there : e.present = true := by rw [pointed]; exact present
      rw [read, chip_setChip, there, if_pos rfl, pointed]
      have found : hw.memory num.toNat dom = some (hw.chip num.toNat dom).cells :=
        if_pos ⟨last, present⟩
      rw [found]
      refine congrArg (Prod.mk (len : Int)) (congrArg (·, _) ?_)
      funext i
      dsimp only
      rw [BitVec.ofNat_add, BitVec.ofInt_natCast]
  · refine ⟨hw, idle, rfl, ?_⟩
    have refused : shwSfpId num = -1 := if_pos (by omega)
    simp [shwSfpRead, refused, SfpMemory.read, valid]

private theorem scanModule_buses {hw : SfpLinks} (idle : hw.Idle) {i : Nat} (last : i < 18)
    (mask : BitVec 32) :
    ∃ hw' : SfpLinks, hw'.Idle ∧ hw'.memory = hw.memory ∧
      scanModule (mask, hw.buses) i =
        (hw.memory.mark mask i, hw'.buses) := by
  obtain ⟨hw', free, same, read⟩ := read_buses idle i false 0 1 (fun _ => 0)
  refine ⟨hw', free, same, ?_⟩
  have address : (0x50 : BitVec 32) = chipAddr false := by decide
  have valid : (0 : Int) ≤ i ∧ (i : Int) ≤ 17 := by omega
  unfold scanModule SfpMemory.mark
  dsimp only
  rw [address, show (0x0 : Int) = ((0 : Nat) : Int) from rfl, read]
  unfold SfpMemory.read
  rw [if_pos valid, Int.toNat_natCast]
  cases found : hw.memory i false with
  | none => rfl
  | some cells => rfl

private theorem scan_buses {hw : SfpLinks} (idle : hw.Idle) :
    ∃ hw' : SfpLinks, hw'.Idle ∧ hw'.memory = hw.memory ∧
      shwSfpModuleScan hw.buses = (hw.memory.scan, hw'.buses) := by
  have turns (n : Nat) (all : n ≤ 18) : ∃ hw' : SfpLinks, hw'.Idle ∧ hw'.memory = hw.memory ∧
      (List.range n).foldl scanModule (0, hw.buses) =
        ((List.range n).foldl hw.memory.mark 0, hw'.buses) := by
    induction n with
    | zero => exact ⟨hw, idle, rfl, rfl⟩
    | succ n ih =>
      obtain ⟨hw1, free, same, done⟩ := ih (by omega)
      obtain ⟨hw2, free', same', turn⟩ := scanModule_buses free (show n < 18 by omega)
        ((List.range n).foldl hw.memory.mark 0)
      refine ⟨hw2, free', same'.trans same, ?_⟩
      rw [List.range_succ, List.foldl_append, List.foldl_append, done, List.foldl_cons,
        List.foldl_nil, List.foldl_cons, List.foldl_nil, turn, same]
  exact turns 18 (Nat.le_refl _)

/-! ### Writing -/

/-- Cells with other contents, later ones over earlier ones. -/
def override (cells : Byte → Byte) (writes : List (Nat × Byte)) : Byte → Byte :=
  writes.foldl (fun cells p c => if c.toNat = p.1 then p.2 else cells c) cells

private theorem override_append (cells : Byte → Byte) (first second : List (Nat × Byte)) :
    override cells (first ++ second) = override (override cells first) second :=
  List.foldl_append

private theorem placed_override (page : List Byte) (cells : Byte → Byte) (start : Nat) :
    placed cells start page = override cells (page.mapIdx fun i b => (start + i, b)) := by
  induction page generalizing cells start with
  | nil =>
    funext c
    simp [placed, override]
  | cons byte page ih =>
    have shift : (fun i (b : Byte) => (start + (i + 1), b)) = fun i b => (start + 1 + i, b) := by
      funext i b
      rw [Nat.add_assoc, Nat.add_comm 1 i]
    rw [List.mapIdx_cons, Nat.add_zero, shift]
    change _ = override (fun c => if c.toNat = start then byte else cells c) _
    rw [← ih]
    funext c
    unfold placed
    dsimp only
    rcases Nat.lt_trichotomy c.toNat start with before | here | behind
    · rw [if_neg (by omega), if_neg (by omega), if_neg (by omega)]
    · simp [here]
    · have index : c.toNat - start = c.toNat - (start + 1) + 1 := by omega
      rw [if_pos (by omega), if_pos (by omega), if_neg (by omega), index,
        List.getElem?_cons_succ]

private theorem override_callerCells (cells : Byte → Byte) (off count : Nat) (buf : Nat → Byte) :
    override cells (callerCells off buf count) = overwrite cells off count buf := by
  induction count with
  | zero =>
    funext c
    have none : ¬(off ≤ c.toNat ∧ c.toNat < off + 0) := by omega
    rw [overwrite, if_neg none]
    rfl
  | succ count ih =>
    rw [callerCells, List.range_succ, List.map_append, override_append, ← callerCells, ih]
    funext c
    change (if c.toNat = off + count then buf count else overwrite cells off count buf c) = _
    unfold overwrite
    by_cases last : c.toNat = off + count
    · have index : c.toNat - off = count := by omega
      rw [if_pos last, if_pos (by omega), index]
    · rw [if_neg last]
      by_cases inside : off ≤ c.toNat ∧ c.toNat < off + count
      · rw [if_pos inside, if_pos (by omega)]
      · rw [if_neg inside, if_neg (by omega)]

/-- A transfer of one page writes its cells. -/
theorem written_page (e : Eeprom) {t : I2cTransfer} (onePage : t.OnePage) :
    (e.written t.written).present = e.present ∧
      (e.written t.written).cells = override e.cells t.cells := by
  obtain ⟨some, same⟩ := onePage
  unfold I2cTransfer.cells at some same ⊢
  cases written : t.written with
  | nil => rw [written] at some; exact absurd rfl some
  | cons start page =>
    rw [written] at same
    dsimp only at same ⊢
    -- the cells end where an eight of cells ends, and so does the page of the chip
    have filled : 0 < page.length := by
      rw [List.length_pos_iff]
      rintro rfl
      exact some (by rw [written]; rfl)
    have listed (i : Nat) (below : i < page.length) :
        (start.toNat + i, page[i]) ∈ page.mapIdx fun i b => (start.toNat + i, b) :=
      List.mem_mapIdx.mpr ⟨i, below, rfl⟩
    have ends := same _ (listed 0 filled) _ (listed (page.length - 1) (by omega))
    have eight : start.toNat % sfpPageSize + page.length ≤ sfpPageSize := by
      simp only [sfpPageSize] at ends ⊢
      omega
    have inside : start.toNat % e.page + page.length ≤ e.page := by
      obtain ⟨k, pages⟩ := e.pages
      have below := Nat.mod_lt start.toNat e.page_pos
      have rest : start.toNat % e.page % sfpPageSize = start.toNat % sfpPageSize :=
        Nat.mod_mod_of_dvd _ e.pages
      simp only [sfpPageSize] at pages rest eight
      omega
    obtain ⟨pointer, put⟩ := Eeprom.put_page page
      { e with pointer := start, fresh := false } rfl inside
    have all : e.written (start :: page) = page.foldl Eeprom.put
        { e with pointer := start, fresh := false } := rfl
    rw [all, put, ← placed_override]
    exact ⟨rfl, rfl⟩

/-- The bytes of a transfer are those that the function has in its buffer. -/
theorem range_getD (bytes : List Byte) :
    ((List.range bytes.length).map fun i => bytes.getD i 0) = bytes := by
  apply List.ext_getElem
  · simp
  · intro i _ below
    simp [below]

theorem I2cTransfer.OnePage.written {t : I2cTransfer} (onePage : t.OnePage) : t.written ≠ [] := by
  intro none
  apply onePage.1
  rw [I2cTransfer.cells, none]

private theorem issueAll_nil (hw : SfpBuses) : issueAll hw [] = hw := rfl

private theorem issueAll_cons (hw : SfpBuses) (t : I2cTransfer) (ts : List I2cTransfer) :
    issueAll hw (t :: ts) = issueAll (issue hw t).2.2 ts := rfl

private theorem issueAll_append (hw : SfpBuses) (first second : List I2cTransfer) :
    issueAll hw (first ++ second) = issueAll (issueAll hw first) second :=
  List.foldl_append

private theorem lastReply_append (hw : SfpBuses) (ts : List I2cTransfer) (t : I2cTransfer) :
    lastReply hw (ts ++ [t]) = (issue (issueAll hw ts) t).1 := by
  unfold lastReply
  rw [List.getLast?_concat, List.dropLast_concat]

private theorem issue_switch {hw : SfpLinks} (idle : hw.Idle) (high : Bool) (byte : Byte) :
    ∃ data, issue hw.buses ⟨.mux, (muxAddress high).setWidth 32, [byte], 0⟩ =
      (1, data, (hw.switch high byte).buses) :=
  ⟨_, switch_buses idle high _⟩

/-- The transfers to the multiplexers open the way, and are not refused. -/
theorem issue_select {hw : SfpLinks} (idle : hw.Idle) (id : Nat) :
    issueAll hw.buses (selectBus id) = (hw.opened id).buses ∧
      0 ≤ lastReply hw.buses (selectBus id) := by
  unfold selectBus SfpLinks.opened
  by_cases behind : id ≠ 0 ∧ id ≠ 1
  · have above : id > 1 := by omega
    rw [if_pos behind, if_pos above]
    obtain ⟨_, low⟩ := issue_switch idle false (BitVec.ofNat 8 (1 <<< busMasks id))
    obtain ⟨_, high⟩ := issue_switch (idle.switch false (BitVec.ofNat 8 (1 <<< busMasks id))) true
      (BitVec.ofNat 8 (1 <<< busMasks id >>> 8))
    rw [muxAddr_low] at low
    rw [muxAddr_high] at high
    have pair (a b : I2cTransfer) : [a, b] = [a] ++ [b] := rfl
    rw [pair, lastReply_append, issueAll_append, issueAll_cons, issueAll_nil, issueAll_cons,
      issueAll_nil, low, high]
    exact ⟨rfl, Int.one_nonneg⟩
  · have below : ¬id > 1 := by omega
    rw [if_neg behind, if_neg below]
    exact ⟨rfl, le_refl 0⟩

/-- A page that is written, to an SFP with the way open. -/
theorem issue_page {hw : SfpLinks} (idle : hw.Idle) {id : Nat} (way : hw.Open id) (dom : Bool)
    {t : I2cTransfer} (device : t.bus = sfpBus id ∧ t.address = chipAddr dom ∧ t.toRead = 0)
    (onePage : t.OnePage) :
    ∃ data, issue hw.buses t =
      if (hw.chip id dom).present then ((t.written.length : Int), data,
        (hw.setChip id dom ((hw.chip id dom).written t.written)).buses)
      else (i2cDevNotFound, data, hw.buses) := by
  obtain ⟨bus, address, reads⟩ := device
  have writes : t.written.length ≠ 0 := by
    rw [Ne, List.length_eq_zero_iff]
    exact onePage.written
  have carried := transfer_chip idle way dom (.inr ⟨writes, rfl⟩) fun i => t.written.getD i 0
  rw [range_getD] at carried
  refine ⟨fun i => t.written.getD i 0, ?_⟩
  unfold issue
  rw [bus, address, reads, carried]
  rfl

private theorem issue_pages {id : Nat} (last : id < 18) (dom : Bool) (pages : List I2cTransfer)
    {hw : SfpLinks} (idle : hw.Idle) (way : hw.Open id) (present : (hw.chip id dom).present = true)
    (device : ∀ t ∈ pages, t.bus = sfpBus id ∧ t.address = chipAddr dom ∧ t.toRead = 0)
    (onePage : ∀ t ∈ pages, t.OnePage) :
    ∃ hw' : SfpLinks, hw'.Idle ∧ hw'.Open id ∧ (hw'.chip id dom).present = true ∧
      issueAll hw.buses pages = hw'.buses ∧
      hw'.memory = fun id' d => if id' = id ∧ d = dom then
        some (override (hw.chip id dom).cells (pages.flatMap I2cTransfer.cells))
        else hw.memory id' d := by
  induction pages generalizing hw with
  | nil =>
    refine ⟨hw, idle, way, present, rfl, ?_⟩
    funext id' d
    split
    next here =>
      obtain ⟨rfl, rfl⟩ := here
      exact if_pos ⟨last, present⟩
    next => rfl
  | cons t pages ih =>
    have own : t ∈ t :: pages := List.mem_cons_self
    obtain ⟨_, sent⟩ := issue_page idle way dom (device t own) (onePage t own)
    rw [if_pos present] at sent
    -- no page crosses a boundary, so each lands where it was meant
    obtain ⟨there, cells⟩ := written_page (hw.chip id dom) (onePage t own)
    generalize (hw.chip id dom).written t.written = e at sent there cells
    have chip := chip_setChip hw id dom e
    obtain ⟨hw', free, way', present', rest, memory⟩ := ih (idle.setChip id dom e)
      (way.setChip id dom e) (by rw [chip, there, present])
      (fun u later => device u (List.mem_cons_of_mem _ later))
      (fun u later => onePage u (List.mem_cons_of_mem _ later))
    refine ⟨hw', free, way', present', ?_, ?_⟩
    · rw [← rest, issueAll_cons, sent]
    · rw [memory, chip, cells, List.flatMap_cons, override_append]
      funext id' d
      split
      next => rfl
      next other =>
        rw [memory_setChip hw last]
        exact if_neg other

private theorem issue_absent {id : Nat} (dom : Bool) (pages : List I2cTransfer)
    {hw : SfpLinks} (idle : hw.Idle) (way : hw.Open id) (absent : (hw.chip id dom).present = false)
    (device : ∀ t ∈ pages, t.bus = sfpBus id ∧ t.address = chipAddr dom ∧ t.toRead = 0)
    (onePage : ∀ t ∈ pages, t.OnePage) : issueAll hw.buses pages = hw.buses := by
  induction pages with
  | nil => rfl
  | cons t pages ih =>
    have own : t ∈ t :: pages := List.mem_cons_self
    obtain ⟨_, sent⟩ := issue_page idle way dom (device t own) (onePage t own)
    rw [absent, if_neg Bool.false_ne_true] at sent
    rw [issueAll_cons, sent]
    exact ih (fun u later => device u (List.mem_cons_of_mem _ later))
      fun u later => onePage u (List.mem_cons_of_mem _ later)

/-! ### What is returned -/

section Replies

variable {reply : List I2cTransfer → Int} {bus : SfpBus} {addr : BitVec 32} {off : Nat}
  {buf : Nat → Byte}

/-- Every page so far was taken. -/
def Taken (reply : List I2cTransfer → Int) (selected : List I2cTransfer) (s : SfpWrite) : Prop :=
  s.issued = selected ∨ 0 ≤ reply s.issued

private theorem sendPage_taken {s s' : SfpWrite} (sent : sendPage reply bus addr s = .ok s') :
    0 ≤ reply s'.issued := by
  unfold sendPage at sent
  dsimp only at sent
  split at sent
  · cases sent
  next taken =>
    cases sent
    exact not_lt.mp taken

private theorem writeByte_taken {selected : List I2cTransfer} {s s' : SfpWrite}
    (before : Taken reply selected s) (turn : writeByte reply bus addr off buf s = .ok s') :
    Taken reply selected s' := by
  unfold writeByte at turn
  dsimp only at turn
  split at turn
  · cases sent : sendPage reply bus addr
        { s with page := s.page ++ [buf s.counter], counter := s.counter + 1 } with
    | error issued =>
      rw [sent] at turn
      cases turn
    | ok s1 =>
      rw [sent] at turn
      cases turn
      have taken : 0 ≤ reply s1.issued := sendPage_taken sent
      exact .inr taken
  · cases turn
    exact before

private theorem writeLoop_taken {selected : List I2cTransfer} (left : Nat) {s s' : SfpWrite}
    (before : Taken reply selected s) (done : writeLoop reply bus addr off buf left s = .ok s') :
    Taken reply selected s' := by
  induction left generalizing s with
  | zero =>
    cases done
    exact before
  | succ left ih =>
    rw [writeLoop] at done
    cases turn : writeByte reply bus addr off buf s with
    | error issued =>
      rw [turn] at done
      cases done
    | ok s1 =>
      rw [turn] at done
      exact ih (writeByte_taken before turn) done

private theorem writePages_taken (len : Nat) (selected : List I2cTransfer)
    (done : (writePages reply bus addr off buf len selected).1 ≠ -1) :
    (writePages reply bus addr off buf len selected).2 = selected ∨
      0 ≤ reply (writePages reply bus addr off buf len selected).2 := by
  unfold writePages at done ⊢
  cases loop : writeLoop reply bus addr off buf len ⟨0, BitVec.ofNat 8 off, [], selected⟩ with
  | error issued =>
    rw [loop] at done
    exact absurd rfl done
  | ok s =>
    rw [loop] at done
    have taken := writeLoop_taken len (.inl rfl) loop
    simp only [bind, Except.bind] at done ⊢
    cases last : (if s.page ≠ [] then sendPage reply bus addr s else pure s) with
    | error issued =>
      rw [last] at done
      exact absurd rfl done
    | ok s' =>
      split at last
      · exact .inr (sendPage_taken last)
      · cases last
        exact taken

end Replies

/-- An SFP that is there takes every page. -/
theorem reply_present {hw : SfpLinks} (idle : hw.Idle) {id : Nat} (last : id < 18) (dom : Bool)
    (present : (hw.chip id dom).present = true) (pages : List I2cTransfer)
    (device : ∀ t ∈ pages, t.bus = sfpBus id ∧ t.address = chipAddr dom ∧ t.toRead = 0)
    (onePage : ∀ t ∈ pages, t.OnePage) : 0 ≤ lastReply hw.buses (selectBus id ++ pages) := by
  obtain ⟨selected, accepted⟩ := issue_select idle id
  rcases List.eq_nil_or_concat pages with rfl | ⟨earlier, t, rfl⟩
  · rw [List.append_nil]
    exact accepted
  · obtain ⟨hw', free, way, there, before, _⟩ := issue_pages last dom earlier
      (opened_idle idle id) (opened_open hw last) (by rw [opened_chip, present])
      (fun u own => device u (by simp [own])) (fun u own => onePage u (by simp [own]))
    obtain ⟨_, page⟩ := issue_page free way dom (device t (by simp)) (onePage t (by simp))
    rw [List.concat_eq_append, ← List.append_assoc, lastReply_append, issueAll_append, selected,
      before, page, if_pos there]
    exact Int.natCast_nonneg _

/-- An SFP that is not there takes none. -/
theorem reply_absent {hw : SfpLinks} (idle : hw.Idle) {id : Nat} (last : id < 18) (dom : Bool)
    (absent : (hw.chip id dom).present = false) {pages : List I2cTransfer} (some : pages ≠ [])
    (device : ∀ t ∈ pages, t.bus = sfpBus id ∧ t.address = chipAddr dom ∧ t.toRead = 0)
    (onePage : ∀ t ∈ pages, t.OnePage) :
    lastReply hw.buses (selectBus id ++ pages) = i2cDevNotFound := by
  obtain ⟨selected, _⟩ := issue_select idle id
  obtain ⟨earlier, t, rfl⟩ := (List.eq_nil_or_concat pages).resolve_left some
  have gone : ((hw.opened id).chip id dom).present = false := by rw [opened_chip, absent]
  have before := issue_absent dom earlier (opened_idle idle id) (opened_open hw last) gone
    (fun u own => device u (by simp [own])) (fun u own => onePage u (by simp [own]))
  obtain ⟨_, page⟩ := issue_page (opened_idle idle id) (opened_open hw last) dom
    (device t (by simp)) (onePage t (by simp))
  rw [List.concat_eq_append, ← List.append_assoc, lastReply_append, issueAll_append, selected,
    before, page, gone, if_neg Bool.false_ne_true]

/-- Bytes take at least one page. -/
theorem pages_some {bus : SfpBus} {addr : BitVec 32} {off count : Nat} {buf : Nat → Byte}
    {pages : List I2cTransfer} (paged : Paged bus addr off buf count pages) (some : 0 < count) :
    pages ≠ [] := by
  rintro rfl
  have cells := congrArg List.length paged.cells
  simp only [List.flatMap_nil, List.length_nil, callerCells, List.length_map,
    List.length_range] at cells
  omega

private theorem write_buses {hw : SfpLinks} (idle : hw.Idle) (num : Int) (dom : Bool)
    (off len : Int) (buf : Nat → Byte) :
    ∃ hw' : SfpLinks, hw'.Idle ∧ hw'.memory = (hw.memory.write num dom off len buf).2 ∧
      sfpWrite num (chipAddr dom) off len buf hw.buses =
        ((hw.memory.write num dom off len buf).1.ret, hw'.buses) := by
  unfold sfpWrite SfpMemory.write
  dsimp only
  rw [shwSfpWrite_eq]
  by_cases request : SfpRequest num off len
  · rw [if_pos request, if_pos request]
    obtain ⟨⟨_, _⟩, some_byte, positive, fits⟩ := request
    have last : num.toNat < 18 := by omega
    obtain ⟨count, _, pages, issued, paged, result⟩ := writePages_result (lastReply hw.buses)
      (sfpBus num.toNat) (chipAddr dom) off.toNat len.toNat buf (selectBus num.toNat) (by omega)
    have taken := @writePages_taken (lastReply hw.buses) (sfpBus num.toNat) (chipAddr dom)
      off.toNat buf len.toNat (selectBus num.toNat)
    have sent : issueAll hw.buses (selectBus num.toNat ++ pages) =
        issueAll (hw.opened num.toNat).buses pages := by
      rw [issueAll_append, (issue_select idle num.toNat).1]
    rw [issued] at result taken
    rw [issued, sent]
    have chip := opened_chip hw num.toNat num.toNat dom
    cases present : (hw.chip num.toNat dom).present with
    | true =>
      have found : hw.memory num.toNat dom = some (hw.chip num.toNat dom).cells :=
        if_pos ⟨last, present⟩
      obtain ⟨hw', free, _, _, done, stored⟩ := issue_pages last dom pages
        (opened_idle idle num.toNat) (opened_open hw last) (by rw [chip, present]) paged.device
        paged.onePage
      -- a chip that is there acknowledges every page
      have answered := reply_present idle last dom present pages paged.device paged.onePage
      rw [found, done]
      rcases result with ⟨ret, rfl⟩ | ⟨_, refused⟩
      · refine ⟨hw', free, ?_, ?_⟩
        · rw [stored, paged.cells, override_callerCells, chip, memory_opened]
        · rw [ret]
          exact congrArg (·, hw'.buses) (Int.toNat_of_nonneg (by omega))
      · exact absurd answered (not_le.mpr refused)
    | false =>
      have none : hw.memory num.toNat dom = none := by
        simp [SfpLinks.memory, present]
      have done := issue_absent dom pages (opened_idle idle num.toNat) (opened_open hw last)
        (by rw [chip, present]) paged.device paged.onePage
      rw [none, done]
      refine ⟨hw.opened num.toNat, opened_idle idle num.toNat, memory_opened hw num.toNat, ?_⟩
      rcases result with ⟨ret, rfl⟩ | ⟨ret, _⟩
      · -- some page was sent, and was not taken
        exfalso
        have some_page := pages_some paged (by omega)
        rcases taken (by rw [ret]; omega) with same | positive
        · exact some_page (by simpa using same)
        · rw [reply_absent idle last dom present some_page paged.device paged.onePage] at positive
          exact absurd positive (by decide)
      · rw [ret]
  · rw [if_neg request, if_neg request]
    exact ⟨hw, idle, rfl, rfl⟩

/-! ### Any calls -/

private theorem call_buses {hw : SfpLinks} (idle : hw.Idle) (c : SfpCall) :
    ∃ hw' : SfpLinks, hw'.Idle ∧ hw'.memory = (hw.memory.call c).2 ∧
      sfpCall hw.buses c = ((hw.memory.call c).1, hw'.buses) := by
  cases c with
  | read num dom off len buf =>
    obtain ⟨hw', free, same, read⟩ := read_buses idle num dom off len buf
    refine ⟨hw', free, same, ?_⟩
    unfold sfpCall
    dsimp only
    rw [read]
    rfl
  | write num dom off len buf =>
    obtain ⟨hw', free, stored, written⟩ := write_buses idle num dom off len buf
    refine ⟨hw', free, stored, ?_⟩
    -- a write leaves the buffer of the caller as it is
    have untouched : (hw.memory.write num dom off len buf).1.buf = buf := by
      unfold SfpMemory.write
      split
      · split <;> rfl
      · rfl
    have whole (a : SfpAnswer) (own : a.buf = buf) : a = ⟨a.ret, buf⟩ := by
      cases own
      rfl
    unfold sfpCall SfpMemory.call
    dsimp only
    rw [written, whole _ untouched]
  | scan =>
    obtain ⟨hw', free, same, scanned⟩ := scan_buses idle
    refine ⟨hw', free, same, ?_⟩
    unfold sfpCall
    dsimp only
    rw [scanned]
    rfl

/-- Through the functions of the library the SFPs are memories, whatever is called: what is
returned and read is what the memories say, and a write to one changes no other. -/
theorem sfps_are_memories {hw : SfpLinks} (idle : hw.Idle) (cs : List SfpCall) :
    ∃ hw' : SfpLinks, hw'.Idle ∧ hw'.memory = (hw.memory.calls cs).2 ∧
      sfpCalls hw.buses cs = ((hw.memory.calls cs).1, hw'.buses) := by
  induction cs generalizing hw with
  | nil => exact ⟨hw, idle, rfl, rfl⟩
  | cons c cs ih =>
    obtain ⟨hw1, free, memory, first⟩ := call_buses idle c
    obtain ⟨hw2, free', memory', rest⟩ := ih free
    rw [memory] at memory' rest
    refine ⟨hw2, free', memory', ?_⟩
    rw [sfpCalls, first]
    dsimp only
    rw [rest]
    rfl

/-- A board with a new SFP in each place. -/
def SfpLinks.blank : SfpLinks where
  mux := ⟨fun _ => .idle, fun
    | .mux _ => ⟨0, 0⟩
    | .eeprom .. => .blank⟩
  link0 := ⟨fun _ => .idle, fun _ => .blank⟩
  link1 := ⟨fun _ => .idle, fun _ => .blank⟩

/-- Four bytes across the end of a page of SFP 3, and what two SFPs have in these cells then. -/
theorem sfps_are_memories_blank :
    SfpLinks.blank.Idle ∧
    (sfpCalls SfpLinks.blank.buses [.write 3 false 6 4 (BitVec.ofNat 8), .read 3 false 6 3 fun _ => 0,
      .read 4 false 6 3 fun _ => 0, .write 18 false 0 1 fun _ => 0]).1.map
        (fun a => (a.ret, a.buf 2)) = [(4, 2), (3, 2), (3, 0xFF), (-1, 0)] := by
  have idle : SfpLinks.blank.Idle := ⟨fun _ => rfl, fun _ => rfl, fun _ => rfl⟩
  obtain ⟨_, _, _, answers⟩ := sfps_are_memories idle [.write 3 false 6 4 (BitVec.ofNat 8),
    .read 3 false 6 3 fun _ => 0, .read 4 false 6 3 fun _ => 0, .write 18 false 0 1 fun _ => 0]
  refine ⟨idle, ?_⟩
  rw [answers]
  dsimp only
  decide +kernel

end WrSwitch.Libwr
