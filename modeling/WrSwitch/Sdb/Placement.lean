import WrSwitch.Sdb.Gensdbfs
import WrSwitch.Sdb.Walk

/-!
# What gensdbfs places where

The size that a directory is given is its inclusive last address, one byte too few for every level
of nesting. Tables and files share no byte exactly if the block in which a sub-directory ends by
that size is the one in which its data end, where something follows.
-/
namespace WrSwitch.Sdb

open Machine

/-! ### Sizes by the tree alone -/

/-- The room that a file is given. -/
def File.room (b : Nat) (f : File) : Nat :=
  if f.writable then roundUp b f.content.length else f.content.length

namespace Entries

/-- Where the entries of a directory begin, behind its table. -/
def start (b : Nat) (t : Entries) : Nat := roundUp b ((t.count + 1) * recordSize)

/-- The last address of a directory, of which these entries are placed from `pos` on. -/
def lastFrom (b : Nat) : Entries → (pos last : Nat) → Nat
  | nil, _, last => last
  | file f rest, pos, last =>
    rest.lastFrom b (roundUp b (pos + f.room b)) (max last (pos + f.room b - 1))
  | dir _ _ _ sub rest, pos, last =>
    let size := sub.lastFrom b (sub.start b) (sub.start b)
    rest.lastFrom b (roundUp b (pos + size)) (max last (pos + size - 1))

/-- The size that a directory is given in the one above. -/
def lastAddr (b : Nat) (t : Entries) : Nat := t.lastFrom b (t.start b) (t.start b)

/-- Where the data of a directory end, of which these entries are placed from `pos` on. -/
def endFrom (b : Nat) : Entries → (pos ended : Nat) → Nat
  | nil, _, ended => ended
  | file f rest, pos, ended =>
    rest.endFrom b (roundUp b (pos + f.room b))
      (if f.content = [] then ended else max ended (pos + f.content.length))
  | dir _ _ _ sub rest, pos, ended =>
    rest.endFrom b (roundUp b (pos + sub.lastAddr b))
      (max ended (pos + sub.endFrom b (sub.start b) ((sub.count + 1) * recordSize)))

/-- The size of a directory: the bytes from its first to the end of its last table or file. -/
def dataEnd (b : Nat) (t : Entries) : Nat :=
  t.endFrom b (t.start b) ((t.count + 1) * recordSize)

/-- There is a directory or a file with something in it. -/
def occupied : Entries → Bool
  | nil => false
  | file f rest => f.content ≠ [] || rest.occupied
  | dir _ _ _ _ _ => true

/-- A directory that something follows ends in the block in which its data end. -/
def Apart (b : Nat) : Entries → Prop
  | nil => True
  | file _ rest => rest.Apart b
  | dir _ _ _ sub rest => sub.Apart b ∧ rest.Apart b ∧
      (rest.occupied = true → sub.dataEnd b ≤ roundUp b (sub.lastAddr b))

instance Apart.decidable (b : Nat) : ∀ t, Decidable (Apart b t)
  | nil => isTrue trivial
  | file _ rest => Apart.decidable b rest
  | dir _ _ _ sub rest =>
    haveI := Apart.decidable b sub
    haveI := Apart.decidable b rest
    inferInstanceAs (Decidable (sub.Apart b ∧ rest.Apart b ∧
      (rest.occupied = true → sub.dataEnd b ≤ roundUp b (sub.lastAddr b))))

/-- Every directory ends below 2 GiB, and its records can be counted in 16 bits. -/
def Below (b : Nat) : Entries → (base pos : Nat) → Prop
  | nil, base, pos => base + pos < intReach
  | file f rest, base, pos => rest.Below b base (roundUp b (pos + f.room b))
  | dir _ _ _ sub rest, base, pos =>
    sub.count + 1 < 65536 ∧ sub.Below b (base + pos) (sub.start b) ∧
      rest.Below b base (roundUp b (pos + sub.lastAddr b))

instance Below.decidable (b : Nat) : ∀ t base pos, Decidable (Below b t base pos)
  | nil, base, pos => inferInstanceAs (Decidable (base + pos < intReach))
  | file f rest, base, pos => Below.decidable b rest base (roundUp b (pos + f.room b))
  | dir _ _ _ sub rest, base, pos =>
    haveI := Below.decidable b sub (base + pos) (sub.start b)
    haveI := Below.decidable b rest base (roundUp b (pos + sub.lastAddr b))
    inferInstanceAs (Decidable (sub.count + 1 < 65536 ∧ sub.Below b (base + pos) (sub.start b) ∧
      rest.Below b base (roundUp b (pos + sub.lastAddr b))))

/-- The slots that are placed from `pos` on. -/
def placed (b : Nat) : Entries → (base pos : Nat) → Sdbf
  | nil, _, _ => .nil
  | file f rest, base, pos =>
    .file f pos (pos + f.room b - 1) (rest.placed b base (roundUp b (pos + f.room b)))
  | dir name ids dot sub rest, base, pos =>
    .dir name ids pos (pos + sub.lastAddr b - 1) ⟨dot, base + pos, sub.count + 1, sub.lastAddr b⟩
      (sub.placed b (base + pos) (sub.start b))
      (rest.placed b base (roundUp b (pos + sub.lastAddr b)))

end Entries

/-- Slot 0 of a directory. -/
def headOf (b : Nat) (dot : Ids) (base : Nat) (t : Entries) : Head :=
  ⟨dot, base, t.count + 1, t.lastAddr b⟩

/-! ### SDB_ALIGN -/

/-- Clearing the lowest bits of a number of 32 bits. -/
theorem and_mask (k y : Nat) (below : k ≤ 32) (small : y < 2 ^ 32) :
    y &&& (2 ^ 32 - 2 ^ k) = y / 2 ^ k * 2 ^ k := by
  have mask : 2 ^ 32 - 2 ^ k = (2 ^ (32 - k) - 1) <<< k := by
    have product : 2 ^ (32 - k) * 2 ^ k = 2 ^ 32 := by
      rw [← Nat.pow_add, Nat.sub_add_cancel below]
    rw [Nat.shiftLeft_eq, Nat.sub_mul, product, Nat.one_mul]
  rw [← Nat.shiftRight_eq_div_pow, ← Nat.shiftLeft_eq, mask]
  refine Nat.eq_of_testBit_eq fun i => ?_
  rw [Nat.testBit_and, Nat.testBit_shiftLeft, Nat.testBit_shiftLeft, Nat.testBit_two_pow_sub_one,
    Nat.testBit_shiftRight]
  by_cases low : k ≤ i
  · rw [Nat.add_sub_cancel' low]
    by_cases high : i < 32
    · simp [low, show i - k < 32 - k by omega]
    · have zero : y.testBit i = false :=
        Nat.testBit_lt_two_pow
          (Nat.lt_of_lt_of_le small (Nat.pow_le_pow_right (by decide) (by omega)))
      simp [zero]
  · simp [low]

private theorem sdbAlign_eq {blocksize : Word} {k : Nat} (power : blocksize.toNat = 2 ^ k) {x : Nat}
    (small : x < intReach) : sdbAlign blocksize x = roundUp blocksize.toNat x := by
  have limit := blocksize.isLt
  have exponent : k < 32 := (Nat.pow_lt_pow_iff_right (by decide)).mp (power ▸ limit)
  have half : 2 ^ k ≤ 2 ^ 31 := Nat.pow_le_pow_right (by decide) (by omega)
  have positive : 0 < 2 ^ k := Nat.pow_pos (by decide)
  have less : (blocksize - 1).toNat = 2 ^ k - 1 := by
    rw [BitVec.toNat_sub_of_le (by rw [BitVec.le_def, power]; exact positive), power]
    rfl
  have mask : (~~~(blocksize - 1)).toNat = 2 ^ 32 - 2 ^ k := by
    rw [BitVec.toNat_not, less]
    omega
  simp only [intReach] at small
  rw [sdbAlign, less, mask, and_mask k _ (by omega) (by omega), roundUp, power]

/-! ### What alloc_storage does -/

section Alloc

variable {b : Nat} (positive : 0 < b)
include positive

/-- A file fits into its room. -/
theorem content_le_room (f : File) : f.content.length ≤ f.room b := by
  unfold File.room
  split
  · exact le_roundUp positive _
  · exact Nat.le_refl _

private theorem room_le (f : File) : f.room b ≤ roundUp b f.content.length := by
  unfold File.room
  split
  · exact Nat.le_refl _
  · exact le_roundUp positive _

private theorem room_empty {f : File} (empty : f.content = []) : f.room b = 0 := by
  rw [File.room, empty, List.length_nil, roundUp_of_dvd positive (Nat.dvd_zero b), ite_self]

/-- The files start behind the table. -/
theorem table_le_start (t : Entries) : (t.count + 1) * recordSize ≤ t.start b :=
  le_roundUp positive _

theorem start_pos (t : Entries) : 0 < t.start b := by
  have := table_le_start positive t
  simp only [recordSize] at this
  omega

theorem below_pos (t : Entries) {base pos : Nat} (below : t.Below b base pos) :
    base + pos < intReach := by
  induction t generalizing base pos with
  | nil => exact below
  | file f rest ih =>
    have next := ih below
    have up := le_roundUp positive (pos + f.room b)
    omega
  | dir name ids dot sub rest _ ih =>
    have next := ih below.2.2
    have up := le_roundUp positive (pos + sub.lastAddr b)
    omega

end Alloc

private theorem lastOf_eq {pos size : Nat} (behind : 0 < pos) (small : pos + size < intReach) :
    lastOf pos size = pos + size - 1 := by
  simp only [intReach] at small
  rw [lastOf]
  omega

private theorem sdbRecords_eq {t : Entries} (few : t.count + 1 < 65536) :
    t.sdbRecords = t.count + 1 :=
  Nat.mod_eq_of_lt few

section Model

variable {blocksize : Word} {k : Nat} (power : blocksize.toNat = 2 ^ k)
include power

theorem blocksize_pos : 0 < blocksize.toNat := power ▸ Nat.pow_pos (by decide)

private theorem size_eq {f : File} (small : f.room blocksize.toNat < intReach) :
    f.size blocksize = f.room blocksize.toNat := by
  have content := content_le_room (blocksize_pos power) f
  rw [File.size, File.room, sdbAlign_eq power (content.trans_lt small)]

/-- The start of the files as `SDB_ALIGN` computes it. -/
theorem start_eq {t : Entries} (few : t.count + 1 < 65536)
    (small : t.start blocksize.toNat < intReach) :
    sdbAlign blocksize (t.sdbRecords * recordSize) = t.start blocksize.toNat := by
  have table := table_le_start (blocksize_pos power) t
  rw [sdbRecords_eq few, sdbAlign_eq power (table.trans_lt small), Entries.start]

/-- `alloc_storage` places the entries as the tree alone says. -/
theorem allocLoop_eq (t : Entries) {base pos : Nat} (last : Nat) (behind : 0 < pos)
    (below : t.Below blocksize.toNat base pos) :
    allocLoop blocksize t base t.count pos last =
      (t.placed blocksize.toNat base pos, t.lastFrom blocksize.toNat pos last) := by
  have positive := blocksize_pos power
  induction t generalizing base pos last with
  | nil => rfl
  | file f rest ih =>
    have next := below_pos positive rest below
    have up := le_roundUp positive (pos + f.room blocksize.toNat)
    have size := size_eq power (f := f) (by omega)
    -- the place of a file is rounded up to the next block
    rw [Entries.count, allocLoop, size, sdbAlign_eq power (by omega), lastOf_eq behind (by omega),
      ih _ (by omega) below]
    rfl
  | dir name ids dot sub rest ihSub ih =>
    obtain ⟨few, inner, later⟩ := below
    have first := below_pos positive sub inner
    have next := below_pos positive rest later
    have up := le_roundUp positive (pos + sub.lastAddr blocksize.toNat)
    have begins := start_pos positive sub
    -- the interconnect record of the directory is not among its entries
    have records : sub.sdbRecords - 1 = sub.count := by
      rw [sdbRecords_eq few]
      rfl
    rw [Entries.count, allocLoop, start_eq power few (by omega), records,
      ihSub _ begins inner]
    dsimp only
    rw [show sub.lastFrom blocksize.toNat (sub.start blocksize.toNat) (sub.start blocksize.toNat) =
      sub.lastAddr blocksize.toNat from rfl, sdbAlign_eq power (by omega),
      lastOf_eq behind (by omega), ih _ (by omega) later, sdbRecords_eq few]
    rfl

/-- The whole tree. -/
theorem allocStorage_eq (dot : Ids) (t : Entries) (few : t.count + 1 < 65536)
    (below : t.Below blocksize.toNat 0 (t.start blocksize.toNat)) :
    allocStorage blocksize dot t =
      (headOf blocksize.toNat dot 0 t, t.placed blocksize.toNat 0 (t.start blocksize.toNat)) := by
  have positive := blocksize_pos power
  have first := below_pos positive t below
  have records : t.sdbRecords - 1 = t.count := by
    rw [sdbRecords_eq few]
    rfl
  rw [allocStorage, start_eq power few (by omega), records,
    allocLoop_eq power t _ (start_pos positive t) below, sdbRecords_eq few]
  rfl

end Model

/-! ### The table of a directory -/

private theorem records_placed (b : Nat) (t : Entries) (base pos : Nat) :
    (t.placed b base pos).records.length = t.count := by
  induction t generalizing base pos with
  | nil => rfl
  | file f rest ih => exact congrArg (· + 1) (ih _ _)
  | dir name ids dot sub rest _ ih => exact congrArg (· + 1) (ih _ _)

/-- A table is the head and the records of its entries. -/
theorem table_eq (b : Nat) (dot : Ids) (base pos : Nat) (t : Entries) :
    table (headOf b dot base t) (t.placed b base pos) =
      headRecord (headOf b dot base t) ++ (t.placed b base pos).records.flatten := by
  have whole : (headOf b dot base t).records =
      (headRecord (headOf b dot base t) :: (t.placed b base pos).records).length := by
    rw [List.length_cons, records_placed]
    rfl
  rw [table, whole, List.take_length, List.flatten_cons]

private theorem length_table (b : Nat) (dot : Ids) (base pos : Nat) (t : Entries) :
    (table (headOf b dot base t) (t.placed b base pos)).length = (t.count + 1) * recordSize := by
  rw [table_eq, List.length_append, length_headRecord,
    length_flatten_records (length_records _), records_placed, Nat.succ_mul, Nat.add_comm]

/-- No table is empty. -/
theorem table_ne_nil (b : Nat) (dot : Ids) (base pos : Nat) (t : Entries) :
    table (headOf b dot base t) (t.placed b base pos) ≠ [] := by
  intro empty
  have length := length_table b dot base pos t
  rw [empty, List.length_nil, Nat.succ_mul] at length
  simp only [recordSize] at length
  omega

/-! ### Where the pieces lie -/

/-- The tables and files of entries that are placed from `pos` on. -/
def Entries.pieces (b : Nat) (t : Entries) (base pos : Nat) : List (Piece Byte) :=
  (t.placed b base pos).pieces base

/-- The tables and files of a directory. -/
def Entries.dirPieces (b : Nat) (dot : Ids) (t : Entries) (base : Nat) : List (Piece Byte) :=
  (base, table (headOf b dot base t) (t.placed b base (t.start b))) ::
    t.pieces b base (t.start b)

private theorem pieces_file (b : Nat) (f : File) (rest : Entries) (base pos : Nat) :
    (Entries.file f rest).pieces b base pos =
      (base + pos, f.content) :: rest.pieces b base (roundUp b (pos + f.room b)) := rfl

/-- The pieces of a directory are its own and those behind it. -/
theorem pieces_dir (b : Nat) (name : List Byte) (ids dot : Ids) (sub rest : Entries)
    (base pos : Nat) :
    (Entries.dir name ids dot sub rest).pieces b base pos =
      sub.dirPieces b dot (base + pos) ++
        rest.pieces b base (roundUp b (pos + sub.lastAddr b)) := rfl

section Pieces

variable {b : Nat} (positive : 0 < b)
include positive

private theorem pieces_after (t : Entries) (base pos : Nat) :
    ∀ p ∈ t.pieces b base pos, base + pos ≤ p.1 := by
  induction t generalizing base pos with
  | nil => exact fun p member => absurd member List.not_mem_nil
  | file f rest ih =>
    have up := le_roundUp positive (pos + f.room b)
    rw [pieces_file]
    refine List.forall_mem_cons.mpr ⟨Nat.le_refl _, fun p member => ?_⟩
    -- the position only grows along the list
    have later := ih _ _ p member
    omega
  | dir name ids dot sub rest ihSub ih =>
    have up := le_roundUp positive (pos + sub.lastAddr b)
    rw [pieces_dir]
    intro p member
    rcases List.mem_append.mp member with inner | member
    · rcases List.mem_cons.mp inner with rfl | inner
      · exact Nat.le_refl _
      · have := ihSub _ _ p inner
        omega
    · have later := ih _ _ p member
      omega

omit positive in
private theorem le_endFrom (t : Entries) (pos ended : Nat) : ended ≤ t.endFrom b pos ended := by
  induction t generalizing pos ended with
  | nil => exact Nat.le_refl _
  | file f rest ih =>
    refine Nat.le_trans ?_ (ih _ _)
    split
    · exact Nat.le_refl _
    · exact Nat.le_max_left _ _
  | dir name ids dot sub rest _ ih => exact (Nat.le_max_left _ _).trans (ih _ _)

omit positive in
private theorem pieces_end (t : Entries) (base pos ended : Nat) :
    ∀ p ∈ t.pieces b base pos, p.2 ≠ [] →
      p.1 + p.2.length ≤ base + t.endFrom b pos ended := by
  induction t generalizing base pos ended with
  | nil => exact fun p member => absurd member List.not_mem_nil
  | file f rest ih =>
    rw [pieces_file]
    refine List.forall_mem_cons.mpr ⟨fun some_bytes => ?_, fun p => ih _ _ _ p⟩
    have later := le_endFrom (b := b) rest (roundUp b (pos + f.room b))
      (max ended (pos + f.content.length))
    rw [Entries.endFrom, if_neg some_bytes]
    dsimp only
    omega
  | dir name ids dot sub rest ihSub ih =>
    rw [pieces_dir, Entries.endFrom]
    intro p member some_bytes
    -- a piece of the directory, or of the entries behind it
    rcases List.mem_append.mp member with inner | member
    · have later := le_endFrom (b := b) rest (roundUp b (pos + sub.lastAddr b))
        (max ended (pos + sub.endFrom b (sub.start b) ((sub.count + 1) * recordSize)))
      rcases List.mem_cons.mp inner with rfl | inner
      · have own := le_endFrom (b := b) sub (sub.start b) ((sub.count + 1) * recordSize)
        rw [length_table]
        omega
      · have own := ihSub _ _ ((sub.count + 1) * recordSize) p inner some_bytes
        omega
    · exact ih _ _ _ p member some_bytes

/-- A directory with all that is in it lies between its first byte and the end of its data. -/
theorem dirPieces_within (dot : Ids) (t : Entries) (base : Nat) :
    ∀ p ∈ t.dirPieces b dot base, base ≤ p.1 ∧
      (p.2 ≠ [] → p.1 + p.2.length ≤ base + t.dataEnd b) := by
  refine List.forall_mem_cons.mpr ⟨⟨Nat.le_refl _, fun _ => ?_⟩, fun p member => ⟨?_, ?_⟩⟩
  · have own := le_endFrom (b := b) t (t.start b) ((t.count + 1) * recordSize)
    rw [length_table, Entries.dataEnd]
    omega
  · have := pieces_after positive t base (t.start b) p member
    omega
  · exact pieces_end t base _ _ p member

omit positive in
/-- What is not occupied has no bytes. -/
theorem pieces_empty (t : Entries) (nothing : t.occupied = false) (base pos : Nat) :
    ∀ p ∈ t.pieces b base pos, p.2 = [] := by
  induction t generalizing base pos with
  | nil => exact fun p member => absurd member List.not_mem_nil
  | file f rest ih =>
    simp only [Entries.occupied, Bool.or_eq_false_iff, decide_eq_false_iff_not, not_not] at nothing
    exact List.forall_mem_cons.mpr ⟨nothing.1, ih nothing.2 _ _⟩
  | dir name ids dot sub rest _ _ => cases nothing

omit positive in
private theorem dirPieces_first (dot : Ids) (t : Entries) (base : Nat) :
    ∃ p ∈ t.dirPieces b dot base, p.Covers base := by
  refine ⟨_, List.mem_cons_self, Nat.le_refl _, ?_⟩
  rw [length_table]
  simp only [recordSize]
  omega

/-- What is occupied has a piece at its very beginning. -/
theorem pieces_first (t : Entries) (something : t.occupied = true) (base pos : Nat)
    (aligned : b ∣ pos) : ∃ p ∈ t.pieces b base pos, p.Covers (base + pos) := by
  induction t generalizing pos with
  | nil => cases something
  | file f rest ih =>
    by_cases empty : f.content = []
    · simp only [Entries.occupied, empty, ne_eq, not_true_eq_false, decide_false,
        Bool.false_or] at something
      obtain ⟨p, member, covers⟩ := ih something pos aligned
      refine ⟨p, List.mem_cons_of_mem _ ?_, covers⟩
      rwa [room_empty positive empty, Nat.add_zero, roundUp_of_dvd positive aligned]
    · have length := List.length_pos_iff.mpr empty
      exact ⟨_, List.mem_cons_self, Nat.le_refl _, by dsimp only; omega⟩
  | dir name ids dot sub rest _ _ =>
    obtain ⟨p, member, covers⟩ := dirPieces_first (b := b) dot sub (base + pos)
    exact ⟨p, List.mem_append_left _ member, covers⟩

/-! ### Overlaps -/

/-- The size that a directory is given reaches no block behind its data. -/
theorem lastFrom_le_end (t : Entries) {pos last ended : Nat} (aligned : b ∣ pos)
    (before : pos ≤ roundUp b ended) (lastBefore : last ≤ roundUp b ended) :
    t.lastFrom b pos last ≤ roundUp b (t.endFrom b pos ended) := by
  induction t generalizing pos last ended with
  | nil => exact lastBefore
  | file f rest ih =>
    rw [Entries.lastFrom, Entries.endFrom]
    -- an empty file takes no room and moves nothing
    by_cases empty : f.content = []
    · rw [if_pos empty, room_empty positive empty, Nat.add_zero, roundUp_of_dvd positive aligned]
      exact ih aligned before (by omega)
    · rw [if_neg empty]
      have size := room_le positive f
      have shift := roundUp_add positive aligned f.content.length
      have mono := roundUp_mono positive (Nat.le_max_right ended (pos + f.content.length))
      have mono' := roundUp_mono positive (Nat.le_max_left ended (pos + f.content.length))
      exact ih (dvd_roundUp b _)
        (roundUp_le_of_dvd positive (dvd_roundUp b _) (by omega)) (by omega)
  | dir name ids dot sub rest ihSub ih =>
    -- the directory ends where its own entries do
    have inner : sub.lastAddr b ≤ roundUp b (sub.dataEnd b) :=
      ihSub (dvd_roundUp b _) (Nat.le_refl _) (Nat.le_refl _)
    rw [Entries.lastFrom, Entries.endFrom]
    change rest.lastFrom b (roundUp b (pos + sub.lastAddr b))
        (max last (pos + sub.lastAddr b - 1)) ≤
      roundUp b (rest.endFrom b (roundUp b (pos + sub.lastAddr b))
        (max ended (pos + sub.dataEnd b)))
    have shift := roundUp_add positive aligned (sub.dataEnd b)
    have mono := roundUp_mono positive (Nat.le_max_right ended (pos + sub.dataEnd b))
    have mono' := roundUp_mono positive (Nat.le_max_left ended (pos + sub.dataEnd b))
    exact ih (dvd_roundUp b _)
      (roundUp_le_of_dvd positive (dvd_roundUp b _) (by omega)) (by omega)

private theorem lastAddr_le_end (t : Entries) : t.lastAddr b ≤ roundUp b (t.dataEnd b) :=
  lastFrom_le_end positive t (dvd_roundUp b _) (Nat.le_refl _) (Nat.le_refl _)

/-- Where a directory is covered if its entries are. -/
theorem dirPieces_cover_of (dot : Ids) (t : Entries) (base : Nat) {m : Nat} (multiple : b ∣ m)
    (entries : t.start b ≤ m → m < (t.count + 1) * recordSize ∨
      ∃ p ∈ t.pieces b base (t.start b), p.Covers (base + m)) :
    ∃ p ∈ t.dirPieces b dot base, p.Covers (base + m) := by
  by_cases inTable : m < (t.count + 1) * recordSize
  · refine ⟨_, List.mem_cons_self, Nat.le_add_right _ _, ?_⟩
    rw [length_table]
    omega
  · have behind : t.start b ≤ m := by
      by_contra before
      exact inTable (lt_of_lt_roundUp positive multiple (Nat.lt_of_not_le before))
    obtain ⟨p, member, covers⟩ := (entries behind).resolve_left inTable
    exact ⟨p, List.mem_cons_of_mem _ member, covers⟩

/-- Every block that begins before the end of the data begins with a byte of a table or a file. -/
theorem pieces_cover (t : Entries) (base : Nat) {pos ended m : Nat} (aligned : b ∣ pos)
    (multiple : b ∣ m) (after : pos ≤ m) (before : m < t.endFrom b pos ended) :
    m < ended ∨ ∃ p ∈ t.pieces b base pos, p.Covers (base + m) := by
  induction t generalizing base pos ended m with
  | nil => exact .inl before
  | file f rest ih =>
    rw [Entries.endFrom] at before
    by_cases empty : f.content = []
    · rw [pieces_file]
      rw [if_pos empty] at before
      rw [room_empty positive empty, Nat.add_zero, roundUp_of_dvd positive aligned] at before ⊢
      exact (ih base aligned multiple after before).imp id
        fun ⟨p, member, covers⟩ => ⟨p, List.mem_cons_of_mem _ member, covers⟩
    rw [if_neg empty] at before
    by_cases inFile : m < pos + f.content.length
    · exact .inr ⟨_, List.mem_cons_self, Nat.add_le_add_left after _, by dsimp only; omega⟩
    · have size := room_le positive f
      have shift := roundUp_add positive aligned f.content.length
      -- a block boundary behind the content is behind the room of the file
      have behind : roundUp b (pos + f.room b) ≤ m := by
        by_contra inBlock
        have inRoom := lt_of_lt_roundUp positive multiple (Nat.lt_of_not_le inBlock)
        exact inFile (lt_of_lt_roundUp positive multiple (by omega))
      rcases ih base (dvd_roundUp b _) multiple behind before with early | ⟨p, member, covers⟩
      · exact .inl (by omega)
      · exact .inr ⟨p, List.mem_cons_of_mem _ member, covers⟩
  | dir name ids dot sub rest ihSub ih =>
    rw [Entries.endFrom] at before
    change m < rest.endFrom b (roundUp b (pos + sub.lastAddr b))
      (max ended (pos + sub.dataEnd b)) at before
    rw [pieces_dir]
    by_cases inSub : m < pos + sub.dataEnd b
    · -- the place in the sub-directory
      obtain ⟨p, member, covers⟩ := dirPieces_cover_of positive dot sub (base + pos)
        (Nat.dvd_sub multiple aligned) fun behind =>
          ihSub (base + pos) (dvd_roundUp b _) (Nat.dvd_sub multiple aligned) behind
            (show m - pos < sub.dataEnd b by omega)
      rw [Nat.add_assoc, Nat.add_sub_cancel' after] at covers
      exact .inr ⟨p, List.mem_append_left _ member, covers⟩
    · have size := lastAddr_le_end positive sub
      have shift := roundUp_add positive aligned (sub.dataEnd b)
      -- likewise behind the room of the directory
      have behind : roundUp b (pos + sub.lastAddr b) ≤ m := by
        by_contra inBlock
        have inSize := lt_of_lt_roundUp positive multiple (Nat.lt_of_not_le inBlock)
        exact inSub (lt_of_lt_roundUp positive multiple (by omega))
      rcases ih base (dvd_roundUp b _) multiple behind before with early | ⟨p, member, covers⟩
      · exact .inl (by omega)
      · exact .inr ⟨p, List.mem_append_right _ member, covers⟩

private theorem dirPieces_cover (dot : Ids) (t : Entries) (base : Nat) {m : Nat} (multiple : b ∣ m)
    (before : m < t.dataEnd b) : ∃ p ∈ t.dirPieces b dot base, p.Covers (base + m) :=
  dirPieces_cover_of positive dot t base multiple fun behind =>
    pieces_cover positive t base (dvd_roundUp b _) multiple behind before

/-- A directory and what follows it have no byte in common. -/
theorem cross_disjoint_iff (dot : Ids) (sub rest : Entries) (base : Nat) {pos : Nat}
    (aligned : b ∣ pos) :
    (∀ p ∈ sub.dirPieces b dot (base + pos),
      ∀ q ∈ rest.pieces b base (roundUp b (pos + sub.lastAddr b)), p.Disjoint q) ↔
      (rest.occupied = true → sub.dataEnd b ≤ roundUp b (sub.lastAddr b)) := by
  rw [roundUp_add positive aligned]
  constructor
  · intro disjoint something
    by_contra beyond
    -- if the data went further, its place would be that of the first piece behind it
    obtain ⟨p, inSub, covers⟩ := dirPieces_cover positive dot sub (base + pos)
      (dvd_roundUp b (sub.lastAddr b)) (Nat.lt_of_not_le beyond)
    obtain ⟨q, inRest, covers'⟩ := pieces_first positive rest something base _
      (Nat.dvd_add aligned (dvd_roundUp b (sub.lastAddr b)))
    rw [← Nat.add_assoc] at covers'
    exact disjoint p inSub q inRest _ ⟨covers, covers'⟩
  · intro apart p inSub q inRest i ⟨covers, covers'⟩
    -- a piece that covers a place is not empty
    have something : rest.occupied = true := by
      by_contra nothing
      exact covers'.ne_nil (pieces_empty rest (Bool.eq_false_iff.mpr nothing) base _ q inRest)
    have ended := (dirPieces_within positive dot sub (base + pos) p inSub).2 covers.ne_nil
    have begun := pieces_after positive rest base _ q inRest
    have room := apart something
    unfold Piece.Covers at covers covers'
    omega

/-- A table is never in the way of the files. -/
theorem dirPieces_disjoint_iff (dot : Ids) (t : Entries) (base : Nat) :
    (t.dirPieces b dot base).Pairwise Piece.Disjoint ↔
      (t.pieces b base (t.start b)).Pairwise Piece.Disjoint := by
  refine List.pairwise_cons.trans (and_iff_right fun q member i ⟨covers, covers'⟩ => ?_)
  have begun := pieces_after positive t base _ q member
  have table := table_le_start positive t
  unfold Piece.Covers at covers covers'
  rw [length_table] at covers
  omega

/-- The tables and files share no byte exactly if the directories are apart. -/
theorem pieces_disjoint_iff (t : Entries) (base : Nat) {pos : Nat} (aligned : b ∣ pos) :
    (t.pieces b base pos).Pairwise Piece.Disjoint ↔ t.Apart b := by
  induction t generalizing base pos with
  | nil => exact iff_of_true List.Pairwise.nil trivial
  | file f rest ih =>
    refine List.pairwise_cons.trans ((and_iff_right ?_).trans (ih base (dvd_roundUp b _)))
    intro q member i ⟨covers, covers'⟩
    have begun := pieces_after positive rest base _ q member
    have up := le_roundUp positive (pos + f.room b)
    have size := content_le_room positive f
    unfold Piece.Covers at covers covers'
    dsimp only at covers
    omega
  | dir name ids dot sub rest ihSub ih =>
    rw [pieces_dir, List.pairwise_append, dirPieces_disjoint_iff positive,
      ihSub _ (show b ∣ sub.start b from dvd_roundUp b _), ih _ (dvd_roundUp b _),
      cross_disjoint_iff positive dot sub rest base aligned, Entries.Apart]

end Pieces

end WrSwitch.Sdb
