import WrSwitch.Libwr.SfpWrite
import WrSwitch.Machine.TwoWireMessages

/-!
# Chips on the I2C busses

The EEPROM of an SFP, the PCA9548 multiplexers in front of the SFPs and the PCA9554 expanders
with their LEDs, as their data sheets describe them.
-/
namespace WrSwitch.Libwr

open Machine.TwoWire

/-- The address in the byte that follows a start. -/
def chipAddress (byte : Byte) : BitVec 7 := byte.extractLsb' 1 7

/-! ### EEPROMs -/

/-- An EEPROM, or the place of one. What is written runs round in a page. -/
structure Eeprom where
  present : Bool
  cells : Byte → Byte
  pointer : Byte
  /-- the next byte that it takes is an address -/
  fresh : Bool
  page : Nat
  page_pos : 0 < page
  pages : sfpPageSize ∣ page
  fits : page ∣ 256

/-- A new one. -/
def Eeprom.blank : Eeprom where
  present := true
  cells := fun _ => 0xFF
  pointer := 0
  fresh := false
  page := sfpPageSize
  page_pos := by decide
  pages := Nat.dvd_refl sfpPageSize
  fits := by decide

/-- The cell that is written next. -/
def Eeprom.next (s : Eeprom) : Byte :=
  BitVec.ofNat 8 (s.pointer.toNat / s.page * s.page + (s.pointer.toNat + 1) % s.page)

def Eeprom.put (s : Eeprom) (byte : Byte) : Eeprom :=
  if s.fresh then { s with pointer := byte, fresh := false }
  else { s with cells := Function.update s.cells s.pointer byte, pointer := s.next }

def eeprom (address : BitVec 7) : Device Eeprom where
  select := fun s byte =>
    if s.present && chipAddress byte == address then (true, { s with fresh := true }) else (false, s)
  write := fun s byte => (true, s.put byte)
  offer := fun s => s.cells s.pointer
  sent := fun s => { s with pointer := s.pointer + 1 }
  stop := id

/-- An EEPROM takes every byte. -/
theorem eeprom_takes (address : BitVec 7) (bytes : List Byte) (s : Eeprom) :
    (eeprom address).takes bytes s = (bytes.length, bytes.foldl Eeprom.put s) := by
  induction bytes generalizing s with
  | nil => rfl
  | cons byte bytes ih =>
    rw [Device.takes]
    simp only [eeprom, if_true]
    rw [← eeprom, ih]
    rfl

/-- The cells from the pointer on. -/
theorem eeprom_gives (address : BitVec 7) (n : Nat) (s : Eeprom) :
    (eeprom address).gives n s =
      ((List.range n).map fun i => s.cells (s.pointer + BitVec.ofNat 8 i),
        { s with pointer := s.pointer + BitVec.ofNat 8 n }) := by
  induction n generalizing s with
  | zero => simp [Device.gives]
  | succ n ih =>
    have later (i : Nat) : s.pointer + 1 + BitVec.ofNat 8 i = s.pointer + BitVec.ofNat 8 (i + 1) := by
      rw [BitVec.add_assoc, Nat.add_comm i 1, BitVec.ofNat_add]
      rfl
    rw [Device.gives, ih, List.range_succ_eq_map, List.map_cons, List.map_map]
    simp only [eeprom, later]
    refine congrArg₂ Prod.mk ?_ rfl
    simp

/-- The cells with bytes stored from `start` on. -/
def placed (cells : Byte → Byte) (start : Nat) (bytes : List Byte) (c : Byte) : Byte :=
  if start ≤ c.toNat then (bytes[c.toNat - start]?).getD (cells c) else cells c

private theorem placed_cons (cells : Byte → Byte) (start : Byte) (byte : Byte) (bytes : List Byte) :
    placed (Function.update cells start byte) (start.toNat + 1) bytes =
      placed cells start.toNat (byte :: bytes) := by
  funext c
  unfold placed
  rcases Nat.lt_trichotomy c.toNat start.toNat with before | here | behind
  · have other : c ≠ start := by
      rintro rfl
      exact absurd before (Nat.lt_irrefl _)
    rw [if_neg (by omega), if_neg (by omega), Function.update_of_ne other]
  · obtain rfl : c = start := BitVec.eq_of_toNat_eq here
    rw [if_neg (by omega), if_pos (Nat.le_refl _), Function.update_self, Nat.sub_self]
    rfl
  · have other : c ≠ start := by
      rintro rfl
      exact absurd behind (Nat.lt_irrefl _)
    have index : c.toNat - start.toNat = c.toNat - (start.toNat + 1) + 1 := by omega
    rw [if_pos (by omega), if_pos (by omega), Function.update_of_ne other, index,
      List.getElem?_cons_succ]

/-- Before the end of its page the pointer goes to the next cell. -/
theorem Eeprom.next_toNat (s : Eeprom) (inside : s.pointer.toNat % s.page + 1 < s.page) :
    s.next.toNat = s.pointer.toNat + 1 := by
  obtain ⟨pages, all⟩ := s.fits
  have split := Nat.div_add_mod s.pointer.toNat s.page
  have below : s.pointer.toNat / s.page < pages := by
    apply Nat.div_lt_of_lt_mul
    rw [← all]
    exact s.pointer.isLt
  have last : s.page * (s.pointer.toNat / s.page) + s.page ≤ 256 := by
    rw [← Nat.mul_succ, all]
    exact Nat.mul_le_mul_left _ below
  have step : (s.pointer.toNat + 1) % s.page = s.pointer.toNat % s.page + 1 := by
    rw [Nat.add_mod, Nat.mod_eq_of_lt (show 1 < s.page by omega), Nat.mod_eq_of_lt inside]
  unfold Eeprom.next
  rw [BitVec.toNat_ofNat, step, Nat.mul_comm]
  omega

/-- Within a page each byte lands where it is meant to. -/
theorem Eeprom.put_page (bytes : List Byte) (s : Eeprom) (ready : s.fresh = false)
    (inside : s.pointer.toNat % s.page + bytes.length ≤ s.page) :
    ∃ pointer, bytes.foldl Eeprom.put s =
      { s with cells := placed s.cells s.pointer.toNat bytes, pointer := pointer } := by
  induction bytes generalizing s with
  | nil =>
    refine ⟨s.pointer, ?_⟩
    have same : placed s.cells s.pointer.toNat [] = s.cells := by
      funext c
      simp [placed]
    rw [same]
    rfl
  | cons byte bytes ih =>
    have first : s.put byte = { s with
        cells := Function.update s.cells s.pointer byte, pointer := s.next } := by
      simp [Eeprom.put, ready]
    rw [List.foldl_cons, first]
    rw [List.length_cons] at inside
    -- behind the last byte the pointer may wrap around within the page
    rcases bytes with _ | ⟨second, more⟩
    · refine ⟨s.next, ?_⟩
      rw [← placed_cons]
      have same : placed (Function.update s.cells s.pointer byte) (s.pointer.toNat + 1) [] =
          Function.update s.cells s.pointer byte := by
        funext c
        simp [placed]
      rw [same]
      rfl
    · rw [List.length_cons] at inside
      have room : s.pointer.toNat % s.page + 1 < s.page := by omega
      have moved := s.next_toNat room
      have step : (s.pointer.toNat + 1) % s.page = s.pointer.toNat % s.page + 1 := by
        rw [Nat.add_mod, Nat.mod_eq_of_lt (show 1 < s.page by omega), Nat.mod_eq_of_lt room]
      obtain ⟨pointer, rest⟩ := ih { s with
        cells := Function.update s.cells s.pointer byte, pointer := s.next } ready (by
          dsimp only
          rw [moved, step, List.length_cons]
          omega)
      refine ⟨pointer, ?_⟩
      rw [rest]
      dsimp only
      rw [moved, placed_cons]

/-! ### Multiplexers -/

/-- The channels that are on, and those that will be after the next stop. -/
structure Pca9548 where
  control : Byte
  pending : Byte
deriving DecidableEq, Repr

def pca9548 (address : BitVec 7) : Device Pca9548 where
  select := fun s byte => (chipAddress byte == address, s)
  write := fun s byte => (true, { s with pending := byte })
  offer := Pca9548.control
  sent := id
  stop := fun s => { s with control := s.pending }

/-! ### Expanders -/

/-- A port expander. `pins` are the levels that the board drives. -/
structure Pca9554 where
  output : Byte
  polarity : Byte
  config : Byte
  pins : Byte
  command : Byte
  fresh : Bool
deriving DecidableEq, Repr

/-- A pin is an input where its bit in the configuration register is set. -/
def Pca9554.level (s : Pca9554) : Byte := (s.output &&& ~~~s.config) ||| (s.pins &&& s.config)

def Pca9554.put (s : Pca9554) (byte : Byte) : Pca9554 :=
  if s.fresh then { s with command := byte, fresh := false }
  else if s.command = 1 then { s with output := byte }
  else if s.command = 2 then { s with polarity := byte }
  else if s.command = 3 then { s with config := byte }
  else s

def Pca9554.get (s : Pca9554) : Byte :=
  if s.command = 0 then s.level ^^^ s.polarity
  else if s.command = 1 then s.output
  else if s.command = 2 then s.polarity
  else s.config

def pca9554 (address : BitVec 7) : Device Pca9554 where
  select := fun s byte =>
    if chipAddress byte = address then (true, { s with fresh := true }) else (false, s)
  write := fun s byte => (true, s.put byte)
  offer := Pca9554.get
  sent := id
  stop := id

end WrSwitch.Libwr
