import Mathlib.Data.BitVec
import Mathlib.Data.List.Basic

/-!
# Writing to the EEPROM of an SFP

`shw_sfp_write` of `libwr/i2c_sfp.c`. The EEPROM has 256 bytes in pages of eight, and a
transfer that runs over the end of a page would go on at its start.
-/
namespace WrSwitch.Libwr

abbrev Byte := BitVec 8

/-! ### The busses -/

/-- The entries of `i2c_buses` that lead to the SFPs. -/
inductive SfpBus where
  | mux
  | link0
  | link1
deriving DecidableEq, Repr

/-- The arguments of `i2c_transfer`: the bytes written and the number of bytes to read. -/
structure I2cTransfer where
  bus : SfpBus
  address : BitVec 32
  written : List Byte
  toRead : Nat
deriving DecidableEq, Repr

/-- `bus_masks`, where it is defined. -/
def busMasks (id : Nat) : Nat := if id < 10 then id + 6 else id - 10

/-- `shw_sfp_id` -/
def shwSfpId (num : Int) : Int := if num > 17 ∨ num < 0 then -1 else num

def sfpBus (id : Nat) : SfpBus := if id = 0 then .link0 else if id = 1 then .link1 else .mux

/-- The mask in the two multiplexers, for the SFPs that do not have a bus of their own. -/
def selectBus (id : Nat) : List I2cTransfer :=
  if id ≠ 0 ∧ id ≠ 1 then
    [⟨.mux, 0x70, [BitVec.ofNat 8 (1 <<< busMasks id)], 0⟩,
      ⟨.mux, 0x71, [BitVec.ofNat 8 (1 <<< busMasks id >>> 8)], 0⟩]
  else []

/-! ### `shw_sfp_write` -/

def sfpPageSize : Nat := 8

/-- The loop's variables, with the transfers issued so far. `page` has what the array has from
its second byte on, `start` is its first byte. -/
structure SfpWrite where
  counter : Nat
  start : Byte
  page : List Byte
  issued : List I2cTransfer

section Write

-- the bus gives every transfer a return value, which may depend on all transfers before it
variable (reply : List I2cTransfer → Int) (bus : SfpBus) (addr : BitVec 32) (off : Nat)
  (buf : Nat → Byte)

/-- The transfer of a page. An error leaves the function, with the transfers issued so far. -/
def sendPage (s : SfpWrite) : Except (List I2cTransfer) SfpWrite :=
  let issued := s.issued ++ [⟨bus, addr, s.start :: s.page, 0⟩]
  if reply issued < 0 then .error issued else .ok { s with issued := issued }

/-- One turn of the loop. -/
def writeByte (s : SfpWrite) : Except (List I2cTransfer) SfpWrite :=
  let s := { s with page := s.page ++ [buf s.counter], counter := s.counter + 1 }
  if (off + s.counter) % sfpPageSize = 0 then
    (sendPage reply bus addr s).map fun s =>
      { s with page := [], start := BitVec.ofNat 8 (s.counter + off) }
  else .ok s

/-- The loop, with the number of bytes that are left. -/
def writeLoop : Nat → SfpWrite → Except (List I2cTransfer) SfpWrite
  | 0, s => .ok s
  | left + 1, s => writeByte reply bus addr off buf s >>= writeLoop left

def writePages (len : Nat) (issued : List I2cTransfer) : Int × List I2cTransfer :=
  let pages := do
    let s ← writeLoop reply bus addr off buf len ⟨0, BitVec.ofNat 8 off, [], issued⟩
    -- the last page, if not already done
    if s.page ≠ [] then sendPage reply bus addr s else pure s
  match pages with
  | .error issued => (-1, issued)
  | .ok s => (s.counter, s.issued)

end Write

/-- The return value, and the transfers issued. -/
def shwSfpWrite (reply : List I2cTransfer → Int) (num : Int) (addr : BitVec 32) (off len : Int)
    (buf : Nat → Byte) : Int × List I2cTransfer :=
  if len < 1 ∨ len > 256 ∨ off < 0 ∨ off > 256 ∨ off + len < 0 ∨ off + len > 256 then (-1, [])
  else if shwSfpId num < 0 then (-1, [])
  else
    let id := (shwSfpId num).toNat
    writePages reply (sfpBus id) addr off.toNat buf len.toNat (selectBus id)

/-! ### Page writes -/

/-- The cells of the EEPROM that a transfer writes, with what it writes there. -/
def I2cTransfer.cells (t : I2cTransfer) : List (Nat × Byte) :=
  match t.written with
  | [] => []
  | start :: page => page.mapIdx fun i b => (start.toNat + i, b)

/-- A transfer of at least one byte, all of whose cells are on one page. -/
def I2cTransfer.OnePage (t : I2cTransfer) : Prop :=
  t.cells ≠ [] ∧ ∀ c ∈ t.cells, ∀ d ∈ t.cells, c.1 / sfpPageSize = d.1 / sfpPageSize

/-- The first `count` bytes of the caller, at the cells from `off` on. -/
def callerCells (off : Nat) (buf : Nat → Byte) (count : Nat) : List (Nat × Byte) :=
  (List.range count).map fun i => (off + i, buf i)

/-- The transfers write the first `count` bytes of the caller, in order, each page on its own. -/
structure Paged (bus : SfpBus) (addr : BitVec 32) (off : Nat) (buf : Nat → Byte) (count : Nat)
    (pages : List I2cTransfer) : Prop where
  device : ∀ t ∈ pages, t.bus = bus ∧ t.address = addr ∧ t.toRead = 0
  onePage : ∀ t ∈ pages, t.OnePage
  cells : pages.flatMap I2cTransfer.cells = callerCells off buf count

section Pages

variable {reply : List I2cTransfer → Int} {bus : SfpBus} {addr : BitVec 32} {off : Nat}
  {buf : Nat → Byte}

private theorem callerCells_add (off : Nat) (buf : Nat → Byte) (count n : Nat) :
    callerCells off buf (count + n) = callerCells off buf count ++
      (List.range n).map fun i => (off + count + i, buf (count + i)) := by
  simp only [callerCells, List.range_add, List.map_append, List.map_map, Nat.add_assoc]
  rfl

/-- The caller's bytes from `first` on. -/
def callerPage (buf : Nat → Byte) (first n : Nat) : List Byte :=
  (List.range n).map fun i => buf (first + i)

private theorem callerPage_succ (buf : Nat → Byte) (first n : Nat) :
    callerPage buf first (n + 1) = callerPage buf first n ++ [buf (first + n)] := by
  rw [callerPage, List.range_succ, List.map_append]
  rfl

private theorem cells_callerPage (bus : SfpBus) (addr : BitVec 32) (buf : Nat → Byte)
    (start : Byte) (first n toRead : Nat) :
    (I2cTransfer.mk bus addr (start :: callerPage buf first n) toRead).cells =
      (List.range n).map fun i => (start.toNat + i, buf (first + i)) := by
  apply List.ext_getElem
  · simp [I2cTransfer.cells, callerPage]
  · intro i _ _
    simp [I2cTransfer.cells, callerPage]

/-- The transfer of a page's bytes goes on where the others have stopped. -/
theorem Paged.append {count n : Nat} {pages : List I2cTransfer}
    (paged : Paged bus addr off buf count pages) (some_byte : 0 < n)
    (fits : off + count + n ≤ 256) (inside : (off + count) % sfpPageSize + n ≤ sfpPageSize) :
    Paged bus addr off buf (count + n)
      (pages ++ [⟨bus, addr, BitVec.ofNat 8 (off + count) :: callerPage buf count n, 0⟩]) := by
  have address : (BitVec.ofNat 8 (off + count)).toNat = off + count :=
    Nat.mod_eq_of_lt (by omega)
  have written := cells_callerPage bus addr buf (BitVec.ofNat 8 (off + count)) count n 0
  rw [address] at written
  refine ⟨fun t member => ?_, fun t member => ?_, ?_⟩
  · rcases List.mem_append.mp member with earlier | here
    · exact paged.device t earlier
    · rw [List.mem_singleton.mp here]
      exact ⟨rfl, rfl, rfl⟩
  · rcases List.mem_append.mp member with earlier | here
    · exact paged.onePage t earlier
    · rw [List.mem_singleton.mp here, I2cTransfer.OnePage, written]
      refine ⟨by simp [some_byte.ne'], ?_⟩
      -- every cell of the transfer is on the page of its first one
      have same (c : Nat × Byte)
          (cell : c ∈ (List.range n).map fun i => (off + count + i, buf (count + i))) :
          c.1 / sfpPageSize = (off + count) / sfpPageSize := by
        obtain ⟨i, bound, rfl⟩ := List.mem_map.mp cell
        have small : i < n := List.mem_range.mp bound
        simp only [sfpPageSize] at inside ⊢
        omega
      intro c member_c d member_d
      rw [same c member_c, same d member_d]
  · rw [List.flatMap_append, paged.cells, callerCells_add, List.flatMap_singleton, written]

/-! ### The loop -/

/-- Before each turn: `pages` has the bytes before `first`, the page under construction those from
`first` on, and it is not full. -/
structure WriteInv (bus : SfpBus) (addr : BitVec 32) (off : Nat) (buf : Nat → Byte)
    (selected : List I2cTransfer) (first : Nat) (pages : List I2cTransfer) (s : SfpWrite) :
    Prop where
  issued : s.issued = selected ++ pages
  paged : Paged bus addr off buf first pages
  counter : s.counter = first + s.page.length
  page : s.page = callerPage buf first s.page.length
  start : s.start = BitVec.ofNat 8 (off + first)
  inside : (off + first) % sfpPageSize + s.page.length < sfpPageSize

/-- What holds when a part of the function is done: the invariant, or an error after whole
pages. -/
def WriteResult (reply : List I2cTransfer → Int) (bus : SfpBus) (addr : BitVec 32) (off : Nat)
    (buf : Nat → Byte) (selected : List I2cTransfer) (len : Nat) (counter : Nat) :
    Except (List I2cTransfer) SfpWrite → Prop
  | .ok s => s.counter = counter ∧
      ∃ first pages, WriteInv bus addr off buf selected first pages s
  | .error issued => reply issued < 0 ∧
      ∃ count ≤ len, ∃ pages, issued = selected ++ pages ∧ Paged bus addr off buf count pages

variable (reply) in
private theorem writeByte_result {selected pages : List I2cTransfer} {first len : Nat}
    {s : SfpWrite} (inv : WriteInv bus addr off buf selected first pages s) (fits : off + len ≤ 256)
    (more : s.counter < len) :
    WriteResult reply bus addr off buf selected len (s.counter + 1)
      (writeByte reply bus addr off buf s) := by
  have count := inv.counter
  have inside := inv.inside
  have grown : s.page ++ [buf s.counter] = callerPage buf first (s.page.length + 1) := by
    rw [callerPage_succ, ← inv.page, ← count]
  -- the page is sent when its last byte is in, and that is the boundary of the chip
  have boundary : (off + (s.counter + 1)) % sfpPageSize = 0 ↔
      (off + first) % sfpPageSize + (s.page.length + 1) = sfpPageSize := by
    simp only [sfpPageSize] at inside ⊢
    omega
  rw [writeByte]
  by_cases full : (off + (s.counter + 1)) % sfpPageSize = 0
  · have paged := inv.paged.append (Nat.succ_pos s.page.length) (by omega)
      (boundary.mp full).le
    rw [← grown, ← inv.start] at paged
    have sent : s.issued ++ [⟨bus, addr, s.start :: (s.page ++ [buf s.counter]), 0⟩] =
        selected ++ (pages ++ [⟨bus, addr, s.start :: (s.page ++ [buf s.counter]), 0⟩]) := by
      rw [inv.issued, List.append_assoc]
    simp only [if_pos full, sendPage, sent]
    -- a failed page ends the write; else the next one begins empty
    by_cases failed : reply (selected ++
        (pages ++ [⟨bus, addr, s.start :: (s.page ++ [buf s.counter]), 0⟩])) < 0
    · rw [if_pos failed]
      exact ⟨failed, first + (s.page.length + 1), by omega, _, rfl, paged⟩
    · rw [if_neg failed]
      refine ⟨rfl, first + (s.page.length + 1), _, rfl, paged, by simp [count, Nat.add_assoc],
        rfl, ?_, ?_⟩
      · have next : s.counter + 1 + off = off + (first + (s.page.length + 1)) := by omega
        exact congrArg (BitVec.ofNat 8) next
      · have aligned := boundary.mp full
        simp only [sfpPageSize, List.length_nil] at aligned ⊢
        omega
  · rw [if_neg full]
    refine ⟨rfl, first, pages, inv.issued, inv.paged, ?_, ?_, inv.start, ?_⟩
    · simp [count, Nat.add_assoc]
    · rw [List.length_append]
      exact grown
    · have short := mt boundary.mpr full
      simp only [List.length_append, List.length_singleton]
      omega

variable (reply) in
private theorem writeLoop_result {selected pages : List I2cTransfer} {first len : Nat} (left : Nat)
    {s : SfpWrite} (inv : WriteInv bus addr off buf selected first pages s)
    (fits : off + len ≤ 256) (rest : s.counter + left = len) :
    WriteResult reply bus addr off buf selected len len
      (writeLoop reply bus addr off buf left s) := by
  induction left generalizing s first pages with
  | zero => exact ⟨rest, first, pages, inv⟩
  | succ left ih =>
    have turn := writeByte_result reply inv fits (by omega)
    rw [writeLoop]
    cases outcome : writeByte reply bus addr off buf s with
    | error issued =>
      rw [outcome] at turn
      exact turn
    | ok s' =>
      rw [outcome] at turn
      obtain ⟨counted, first', pages', inv'⟩ := turn
      exact ih inv' (by omega)

variable (reply) in
/-- The last page is written if it is not empty. -/
theorem lastPage_result {selected pages : List I2cTransfer} {first len : Nat} {s : SfpWrite}
    (inv : WriteInv bus addr off buf selected first pages s) (fits : off + len ≤ 256)
    (done : s.counter = len) :
    match (if s.page ≠ [] then sendPage reply bus addr s else pure s) with
    | .ok s' => s'.counter = len ∧
      ∃ pages', s'.issued = selected ++ pages' ∧ Paged bus addr off buf len pages'
    | .error issued => reply issued < 0 ∧
      ∃ pages', issued = selected ++ pages' ∧ Paged bus addr off buf len pages' := by
  have count := inv.counter
  -- the last page was sent already, or is sent now
  by_cases empty : s.page = []
  · have whole : first = len := by simpa [empty, done] using count.symm
    rw [if_neg (not_not.mpr empty)]
    exact ⟨done, pages, inv.issued, whole ▸ inv.paged⟩
  · have some_byte : 0 < s.page.length := List.length_pos_iff.mpr empty
    have paged := inv.paged.append some_byte (by omega) inv.inside.le
    rw [← inv.page, ← inv.start, ← count, done] at paged
    have sent : s.issued ++ [⟨bus, addr, s.start :: s.page, 0⟩] =
        selected ++ (pages ++ [⟨bus, addr, s.start :: s.page, 0⟩]) := by
      rw [inv.issued, List.append_assoc]
    rw [if_pos empty]
    simp only [sendPage, sent]
    -- the driver may refuse the last page
    by_cases failed : reply (selected ++ (pages ++ [⟨bus, addr, s.start :: s.page, 0⟩])) < 0
    · rw [if_pos failed]
      exact ⟨failed, _, rfl, paged⟩
    · rw [if_neg failed]
      exact ⟨done, _, rfl, paged⟩

/-- The pages that are written, and how many bytes they hold. -/
theorem writePages_result (reply : List I2cTransfer → Int) (bus : SfpBus) (addr : BitVec 32)
    (off len : Nat) (buf : Nat → Byte) (selected : List I2cTransfer) (fits : off + len ≤ 256) :
    ∃ count ≤ len, ∃ pages,
      (writePages reply bus addr off buf len selected).2 = selected ++ pages ∧
      Paged bus addr off buf count pages ∧
      ((writePages reply bus addr off buf len selected).1 = len ∧ count = len ∨
        (writePages reply bus addr off buf len selected).1 = -1 ∧
          reply (writePages reply bus addr off buf len selected).2 < 0) := by
  have start : WriteInv bus addr off buf selected 0 [] ⟨0, BitVec.ofNat 8 off, [], selected⟩ :=
    ⟨by simp, ⟨by simp, by simp, rfl⟩, rfl, rfl, rfl, Nat.mod_lt _ (by decide)⟩
  -- the loop stops at a refused page or at the end of the buffer
  have loop := writeLoop_result reply len start fits (Nat.zero_add len)
  simp only [writePages]
  cases outcome : writeLoop reply bus addr off buf len ⟨0, BitVec.ofNat 8 off, [], selected⟩ with
  | error issued =>
    rw [outcome] at loop
    obtain ⟨failed, count, bound, pages, issued_eq, paged⟩ := loop
    exact ⟨count, bound, pages, issued_eq, paged, Or.inr ⟨rfl, failed⟩⟩
  | ok s =>
    rw [outcome] at loop
    obtain ⟨counted, first, pages, inv⟩ := loop
    have last := lastPage_result reply inv fits counted
    simp only [bind, Except.bind]
    cases final : (if s.page ≠ [] then sendPage reply bus addr s else pure s) with
    | error issued =>
      rw [final] at last
      obtain ⟨failed, pages', issued_eq, paged⟩ := last
      exact ⟨len, le_rfl, pages', issued_eq, paged, Or.inr ⟨rfl, failed⟩⟩
    | ok s' =>
      rw [final] at last
      obtain ⟨done, pages', issued_eq, paged⟩ := last
      exact ⟨len, le_rfl, pages', issued_eq, paged, Or.inl ⟨congrArg Int.ofNat done, rfl⟩⟩

end Pages

/-! ### The function -/

/-- A request for an SFP that exists, inside the device. -/
def SfpRequest (num off len : Int) : Prop :=
  (0 ≤ num ∧ num ≤ 17) ∧ 1 ≤ len ∧ 0 ≤ off ∧ off + len ≤ 256

instance (num off len : Int) : Decidable (SfpRequest num off len) :=
  inferInstanceAs (Decidable (_ ∧ _))

/-- A request in range is written page by page, another one is refused. -/
theorem shwSfpWrite_eq (reply : List I2cTransfer → Int) (num : Int) (addr : BitVec 32)
    (off len : Int) (buf : Nat → Byte) :
    shwSfpWrite reply num addr off len buf =
      if SfpRequest num off len then
        writePages reply (sfpBus num.toNat) addr off.toNat buf len.toNat (selectBus num.toNat)
      else (-1, []) := by
  by_cases request : SfpRequest num off len
  · have accepted := request
    obtain ⟨⟨low, high⟩, some_byte, positive, inside⟩ := accepted
    have id : shwSfpId num = num := if_neg (by omega)
    rw [if_pos request, shwSfpWrite, if_neg (by omega), id, if_neg (by omega)]
  · rw [if_neg request, shwSfpWrite]
    by_cases range : len < 1 ∨ len > 256 ∨ off < 0 ∨ off > 256 ∨ off + len < 0 ∨ off + len > 256
    · rw [if_pos range]
    · have absent : num > 17 ∨ num < 0 := by
        by_contra port
        exact request ⟨by omega, by omega⟩
      rw [if_neg range, shwSfpId, if_pos absent, if_pos (by decide)]

/-- A request that is not inside the device, or for no SFP, is refused before any transfer. Any
other writes the caller's bytes, in order and page by page, up to the first transfer that fails;
the length is returned if none does. -/
theorem shwSfpWrite_pages (reply : List I2cTransfer → Int) (num : Int) (addr : BitVec 32)
    (off len : Int) (buf : Nat → Byte) :
    (¬SfpRequest num off len → shwSfpWrite reply num addr off len buf = (-1, [])) ∧
    (SfpRequest num off len →
      ∃ count ≤ len.toNat, ∃ pages,
        (shwSfpWrite reply num addr off len buf).2 = selectBus num.toNat ++ pages ∧
        Paged (sfpBus num.toNat) addr off.toNat buf count pages ∧
        ((shwSfpWrite reply num addr off len buf).1 = len ∧ count = len.toNat ∨
          (shwSfpWrite reply num addr off len buf).1 = -1 ∧
            reply (shwSfpWrite reply num addr off len buf).2 < 0)) := by
  rw [shwSfpWrite_eq]
  refine ⟨fun refused => if_neg refused, fun request => ?_⟩
  rw [if_pos request]
  obtain ⟨_, some_byte, positive, inside⟩ := request
  have length : (len.toNat : Int) = len := Int.toNat_of_nonneg (by omega)
  have result := writePages_result reply (sfpBus num.toNat) addr off.toNat len.toNat buf
    (selectBus num.toNat) (by omega)
  rwa [length] at result

/-- Ten bytes from cell 6 on, on SFP 3: after the choice of the bus, two bytes, a page of eight,
and no transfer for an empty rest. -/
theorem shwSfpWrite_ten :
    SfpRequest 3 6 10 ∧
    ∃ count ≤ 10, ∃ pages,
      (shwSfpWrite (fun _ => 0) 3 0x50 6 10 (BitVec.ofNat 8)).2 = selectBus 3 ++ pages ∧
      Paged .mux 0x50 6 (BitVec.ofNat 8) count pages ∧
      (shwSfpWrite (fun _ => 0) 3 0x50 6 10 (BitVec.ofNat 8)).1 = 10 := by
  have request : SfpRequest 3 6 10 := by decide
  obtain ⟨count, bound, pages, issued, paged, done | ⟨-, failed⟩⟩ :=
    (shwSfpWrite_pages (fun _ => 0) 3 0x50 6 10 (BitVec.ofNat 8)).2 request
  · exact ⟨request, count, bound, pages, issued, paged, done.1⟩
  · exact absurd failed (by decide)

end WrSwitch.Libwr
