import WrSwitch.Sdb.ImageScan

/-!
# From gensdbfs to libsdb

The image of a tree is scanned, and every file is opened by its name and read back, exactly if no
directory reaches into the entry that follows it.
-/
namespace WrSwitch.Sdb

open Machine

/-! ### A scan that is stopped -/

/-- The only record that is wanted is found, with the base of its directory. -/
theorem Visits.found {methods : Methods} {fs : Sdbfs} {records : List (Record × Nat)}
    (visits : Visits methods fs records) {wanted : Record → Bool} {steps : Nat}
    (enough : records.length < steps) {r : Record} {base : Nat} (member : (r, base) ∈ records)
    (accepted : wanted r = true) (only : ∀ x ∈ records, wanted x.1 = true → x = (r, base)) :
    ∃ after, scanUntil methods wanted steps fs = some (after, some r) ∧ after.dev = fs.dev ∧
      after.base after.depth = BitVec.ofNat 32 base := by
  induction records generalizing fs steps with
  | nil => exact absurd member List.not_mem_nil
  | cons x more ih =>
    obtain ⟨steps, rfl⟩ : ∃ n, steps = n + 1 := ⟨steps - 1, by omega⟩
    obtain ⟨first, others⟩ := List.forall_mem_cons.mp only
    obtain ⟨after, returned, ⟨same, current, inside⟩, rest⟩ := visits
    rw [scanUntil, returned, Option.bind_eq_bind, Option.bind_some]
    -- the scan stops at the first record that is wanted, and only one is
    by_cases here : wanted x.1 = true
    · obtain rfl := first here
      exact ⟨after, by simp only [accepted, if_true], same, inside⟩
    · simp only [here]
      have later : (r, base) ∈ more := by
        refine (List.mem_cons.mp member).resolve_left fun equal => here ?_
        rw [← equal]
        exact accepted
      have enough' : more.length < steps := Nat.lt_of_succ_lt_succ enough
      obtain ⟨last, stopped, same', inside'⟩ := ih rest enough' later others
      exact ⟨last, stopped, same'.trans same, inside'⟩

/-- The records of a tree, without the first. -/
def Entries.total : Entries → Nat
  | nil => 0
  | file _ rest => rest.total + 1
  | dir _ _ _ sub rest => sub.total + rest.total + 2

private theorem length_preorder (b : Nat) (t : Entries) (base pos : Nat) :
    ((t.placed b base pos).preorder base).length = t.total := by
  induction t generalizing base pos with
  | nil => rfl
  | file f rest ih => exact congrArg (· + 1) (ih _ _)
  | dir name ids dot sub rest ihSub ih =>
    change List.length (_ ++ _) + 1 + 1 = sub.total + rest.total + 2
    rw [List.length_append, ih]
    exact congrArg (· + rest.total + 2) (ihSub _ _)

/-- What directories of 65535 entries can hold. -/
theorem total_le {b : Nat} (t : Entries) {base pos : Nat} (below : t.Below b base pos) :
    t.total ≤ t.count * 65536 ^ t.height := by
  induction t generalizing base pos with
  | nil => exact Nat.zero_le _
  | file f rest ih =>
    have others := ih below
    have one : 0 < 65536 ^ rest.height := Nat.pow_pos (by decide)
    rw [Entries.total, Entries.count, Entries.height, Nat.succ_mul]
    omega
  | dir name ids dot sub rest ihSub ih =>
    obtain ⟨few, inner, later⟩ := below
    have own := ihSub inner
    have others := ih later
    have one : 0 < 65536 ^ sub.height := Nat.pow_pos (by decide)
    -- the bridge and the head of the directory count for one entry each
    have room : (sub.count + 2) * 65536 ^ sub.height ≤ 65536 ^ (sub.height + 1) := by
      rw [Nat.pow_succ']
      exact Nat.mul_le_mul_right _ (by omega)
    have high : 65536 ^ (sub.height + 1) ≤ 65536 ^ max (sub.height + 1) rest.height :=
      Nat.pow_le_pow_right (by decide) (Nat.le_max_left _ _)
    have high' : rest.count * 65536 ^ rest.height ≤
        rest.count * 65536 ^ max (sub.height + 1) rest.height :=
      Nat.mul_le_mul_left _ (Nat.pow_le_pow_right (by decide) (Nat.le_max_right _ _))
    rw [Entries.total, Entries.count, Entries.height, Nat.succ_mul]
    rw [Nat.add_mul] at room
    omega

private theorem total_lt_scanLimit {b : Nat} (t : Entries) {base pos : Nat}
    (below : t.Below b base pos)
    (few : t.count + 1 < 65536) (nested : t.height < sdbfsDepth) : t.total < scanLimit := by
  have height : 65536 ^ t.height ≤ 65536 ^ 3 :=
    Nat.pow_le_pow_right (by decide) (Nat.le_of_lt_succ nested)
  calc t.total ≤ t.count * 65536 ^ t.height := total_le t below
    _ ≤ 65535 * 65536 ^ 3 := Nat.mul_le_mul (by omega) height
    _ < scanLimit := by decide

/-! ### Names -/

/-- A name that fits a record and has no blank. -/
def PlainName (name : List Byte) : Prop := name.length ≤ 19 ∧ 0x20 ∉ name

instance (name : List Byte) : Decidable (PlainName name) :=
  inferInstanceAs (Decidable (_ ∧ _))

/-- The names of the files and directories can be told apart. -/
structure Entries.Named (t : Entries) : Prop where
  distinct : t.names.Nodup
  plain : ∀ name ∈ t.names, PlainName name
  entries : dotName ∉ t.names

private theorem productName_deviceRecord (f : File) (rstart addrLast : Nat) :
    productName (deviceRecord f rstart addrLast) = fillName f.name :=
  productName_component (by simp [length_bytesOf]) rstart addrLast f.name f.ids sdbTypeDevice

private theorem productName_bridgeRecord (name : List Byte) (ids : Ids) (rstart addrLast : Nat) :
    productName (bridgeRecord name ids rstart addrLast) = fillName name :=
  productName_component (length_bytesOf 8 rstart) rstart addrLast name ids sdbTypeBridge

private theorem productName_headRecord (head : Head) :
    productName (headRecord head) = fillName dotName :=
  productName_component (length_headFields head) 0 head.addrLast dotName head.dot
    sdbTypeInterconnect

private theorem hasName_other {name other : List Byte} {r : Record}
    (filled : productName r = fillName other) (plain : PlainName name) (plain' : PlainName other) (differs : name ≠ other) :
    hasName name r = false := by
  rw [← Bool.not_eq_true, hasName_iff filled plain.1 plain'.1 plain.2 plain'.2]
  exact differs

/-- No record has a name that is not in the tree. -/
theorem not_hasName {b : Nat} {name : List Byte} (plain : PlainName name) (entry : name ≠ dotName)
    (t : Entries) (plains : ∀ other ∈ t.names, PlainName other) (absent : name ∉ t.names)
    (base pos : Nat) : ∀ x ∈ (t.placed b base pos).preorder base, hasName name x.1 = false := by
  induction t generalizing base pos with
  | nil => exact fun x member => absurd member List.not_mem_nil
  | file f rest ih =>
    obtain ⟨own, others⟩ := List.forall_mem_cons.mp plains
    obtain ⟨differs, absent⟩ := not_or.mp (mt List.mem_cons.mpr absent)
    exact List.forall_mem_cons.mpr
      ⟨hasName_other (productName_deviceRecord _ _ _) plain own differs, ih others absent _ _⟩
  | dir other ids dot sub rest ihSub ih =>
    obtain ⟨own, others⟩ := List.forall_mem_cons.mp plains
    obtain ⟨differs, absent⟩ := not_or.mp (mt List.mem_cons.mpr absent)
    -- the names of the subdirectory, its own two records and the rest are looked at apart
    obtain ⟨inner, later⟩ := List.forall_mem_append.mp others
    obtain ⟨absent, absent'⟩ := not_or.mp (mt List.mem_append.mpr absent)
    refine List.forall_mem_cons.mpr
      ⟨hasName_other (productName_bridgeRecord _ _ _ _) plain own differs, ?_⟩
    refine List.forall_mem_cons.mpr
      ⟨hasName_other (productName_headRecord _) plain (by decide) entry, ?_⟩
    exact List.forall_mem_append.mpr ⟨ihSub inner absent _ _, ih later absent' _ _⟩

/-! ### Files -/

/-- A record of a scan is that of a file, whose bytes are a piece of the image. -/
def IsFile (b : Nat) (pieces : List (Piece Byte)) (f : File) (x : Record × Nat) : Prop :=
  ∃ pos, x.1 = deviceRecord f pos (pos + f.room b - 1) ∧ 0 < pos ∧
    x.2 + pos + f.room b < intReach ∧ (x.2 + pos, f.content) ∈ pieces

/-- A file of some pieces is one of more. -/
theorem IsFile.mono {b : Nat} {pieces pieces' : List (Piece Byte)} {f : File} {x : Record × Nat}
    (isFile : IsFile b pieces f x) (more : pieces ⊆ pieces') : IsFile b pieces' f x := by
  obtain ⟨pos, record, behind, small, member⟩ := isFile
  exact ⟨pos, record, behind, small, more member⟩

private theorem mem_names_of_mem_files (t : Entries) : ∀ f ∈ t.files, f.name ∈ t.names := by
  induction t with
  | nil => exact fun f member => absurd member List.not_mem_nil
  | file g rest ih =>
    exact List.forall_mem_cons.mpr
      ⟨List.mem_cons_self, fun f member => List.mem_cons_of_mem _ (ih f member)⟩
  | dir name ids dot sub rest ihSub ih =>
    refine List.forall_mem_append.mpr ⟨fun f member => ?_, fun f member => ?_⟩
    · exact List.mem_cons_of_mem _ (List.mem_append_left _ (ihSub f member))
    · exact List.mem_cons_of_mem _ (List.mem_append_right _ (ih f member))

/-- A name that no other entry has. -/
theorem Entries.Named.file {f : File} {rest : Entries} (named : (Entries.file f rest).Named) :
    rest.Named ∧ f.name ∉ rest.names := by
  obtain ⟨absent, distinct⟩ := List.nodup_cons.mp named.distinct
  exact ⟨⟨distinct, (List.forall_mem_cons.mp named.plain).2,
    mt (List.mem_cons_of_mem _) named.entries⟩, absent⟩

/-- The names of a directory, apart from the others. -/
theorem Entries.Named.dir {name : List Byte} {ids dot : Ids} {sub rest : Entries}
    (named : (Entries.dir name ids dot sub rest).Named) :
    sub.Named ∧ rest.Named ∧ name ∉ sub.names ++ rest.names ∧
      ∀ other ∈ sub.names, other ∉ rest.names := by
  obtain ⟨absent, distinct⟩ := List.nodup_cons.mp named.distinct
  obtain ⟨distinctSub, distinctRest, apart⟩ := List.nodup_append.mp distinct
  obtain ⟨plainSub, plainRest⟩ :=
    List.forall_mem_append.mp (List.forall_mem_cons.mp named.plain).2
  obtain ⟨dotSub, dotRest⟩ := not_or.mp
    (mt List.mem_append.mpr (mt (List.mem_cons_of_mem _) named.entries))
  exact ⟨⟨distinctSub, plainSub, dotSub⟩, ⟨distinctRest, plainRest, dotRest⟩, absent,
    fun other inSub inRest => apart other inSub other inRest rfl⟩

/-- Every file has a record of its name, and no other record has it. -/
theorem file_found {b : Nat} (positive : 0 < b) (t : Entries) (named : t.Named) {base pos : Nat}
    (behind : 0 < pos) (below : t.Below b base pos) :
    ∀ f ∈ t.files, ∃ x ∈ (t.placed b base pos).preorder base,
      IsFile b (t.pieces b base pos) f x ∧ hasName f.name x.1 = true ∧
        ∀ y ∈ (t.placed b base pos).preorder base, hasName f.name y.1 = true → y = x := by
  have wrong {r : Record} {name : List Byte} {P : Prop} (refused : hasName name r = false)
      (accepted : hasName name r = true) : P := by
    rw [refused] at accepted
    cases accepted
  induction t generalizing base pos with
  | nil => exact fun f member => absurd member List.not_mem_nil
  | file g rest ih =>
    obtain ⟨namedRest, absent⟩ := named.file
    have plain := named.plain g.name List.mem_cons_self
    have up := le_roundUp positive (pos + g.room b)
    have next := below_pos positive rest below
    refine List.forall_mem_cons.mpr ⟨?_, fun f member => ?_⟩
    · refine ⟨_, List.mem_cons_self, ⟨pos, rfl, behind, by omega, List.mem_cons_self⟩, ?_, ?_⟩
      · exact (hasName_iff (productName_deviceRecord _ _ _) plain.1 plain.1 plain.2 plain.2).mpr rfl
      · exact List.forall_mem_cons.mpr ⟨fun _ => rfl, fun y later => wrong (not_hasName plain
          (fun same => named.entries (same ▸ List.mem_cons_self)) rest namedRest.plain absent
          _ _ y later)⟩
    · obtain ⟨x, inside, isFile, accepted, only⟩ := ih namedRest (by omega) below f member
      have known := mem_names_of_mem_files rest f member
      refine ⟨x, List.mem_cons_of_mem _ inside, isFile.mono (List.subset_cons_self _ _), accepted,
        List.forall_mem_cons.mpr ⟨wrong (hasName_other (productName_deviceRecord _ _ _)
          (namedRest.plain _ known) plain fun same => absent (same ▸ known)), only⟩⟩
  | dir name ids dot sub rest ihSub ih =>
    obtain ⟨namedSub, namedRest, absent, apart⟩ := named.dir
    obtain ⟨few, inner, later⟩ := below
    have plain := named.plain name List.mem_cons_self
    have up := le_roundUp positive (pos + sub.lastAddr b)
    -- the bridge and the head have names of their own
    have others (f : File) (known : f.name ∈ sub.names ++ rest.names) {x : Record × Nat}
        {more : List (Record × Nat)}
        (only : ∀ y ∈ more, hasName f.name y.1 = true → y = x) :
        ∀ y ∈ (bridgeRecord name ids pos (pos + sub.lastAddr b - 1), base) ::
          (headRecord (headOf b dot (base + pos) sub), base + pos) :: more,
          hasName f.name y.1 = true → y = x := by
      have plainFile := named.plain f.name (List.mem_cons_of_mem _ known)
      refine List.forall_mem_cons.mpr ⟨wrong (hasName_other (productName_bridgeRecord _ _ _ _)
        plainFile plain fun same => absent (same ▸ known)), ?_⟩
      refine List.forall_mem_cons.mpr ⟨wrong (hasName_other (productName_headRecord _)
        plainFile (by decide) fun same => ?_), only⟩
      exact named.entries (List.mem_cons_of_mem _ (same ▸ known))
    intro f member
    rcases List.mem_append.mp member with inSub | inRest
    · obtain ⟨x, inside, isFile, accepted, only⟩ := ihSub namedSub (start_pos positive sub) inner
        f inSub
      have known := mem_names_of_mem_files sub f inSub
      refine ⟨x, ?_, isFile.mono ?_, accepted, others f (List.mem_append_left _ known) ?_⟩
      · exact List.mem_cons_of_mem _ (List.mem_cons_of_mem _ (List.mem_append_left _ inside))
      · intro p own
        rw [pieces_dir]
        exact List.mem_append_left _ (List.mem_cons_of_mem _ own)
      · refine List.forall_mem_append.mpr ⟨only, fun y outside => wrong (not_hasName
          (namedSub.plain _ known) (fun same => namedSub.entries (same ▸ known)) rest
          namedRest.plain (apart _ known) _ _ y outside)⟩
    · obtain ⟨x, inside, isFile, accepted, only⟩ := ih namedRest (by omega) later f inRest
      have known := mem_names_of_mem_files rest f inRest
      refine ⟨x, ?_, isFile.mono ?_, accepted, others f (List.mem_append_right _ known) ?_⟩
      · exact List.mem_cons_of_mem _ (List.mem_cons_of_mem _ (List.mem_append_right _ inside))
      · intro p own
        rw [pieces_dir]
        exact List.mem_append_right _ own
      · refine List.forall_mem_append.mpr ⟨fun y outside => wrong (not_hasName
          (namedRest.plain _ known) (fun same => namedRest.entries (same ▸ known)) sub
          namedSub.plain (fun inSub => apart _ inSub known) _ _ y outside), only⟩

/-! ### Reading a file -/

/-- A read of nothing returns nothing, at whatever place. -/
def Methods.ReadsNothing (methods : Methods) : Prop :=
  ∀ (image : List Byte) (offset : Nat), methods.read image offset 0 = ([], 0)

/-- A file that was opened is read whole. -/
theorem fread_whole {methods : Methods} (sound : methods.Sound) (nothing : methods.ReadsNothing)
    {b : Nat} (positive : 0 < b) {fs : Sdbfs} {f : File} {base pos : Nat}
    (inside : fs.base fs.depth = BitVec.ofNat 32 base) (behind : 0 < pos)
    (small : base + pos + f.room b < intReach)
    (written : f.content ≠ [] → HoldsAt fs.dev.image (base + pos) f.content)
    (buf : List Byte) (space : f.content.length ≤ buf.length) :
    ∃ after, fread methods (openRecord fs (deviceRecord f pos (pos + f.room b - 1))) 0 buf
        (BitVec.ofNat 32 f.content.length) =
      some (after, (f.content.length : Int), f.content ++ buf.drop f.content.length) := by
  have room := content_le_room positive f
  -- the record holds the whole place of the file
  have last : addrLast (deviceRecord f pos (pos + f.room b - 1)) = pos + f.room b - 1 := by
    simp only [intReach] at small
    exact (addrLast_component (by simp [length_bytesOf]) _ _ _ _ _).trans
      (Nat.mod_eq_of_lt (by omega))
  have first : addrFirst (deviceRecord f pos (pos + f.room b - 1)) = pos := by
    simp only [intReach] at small
    exact (addrFirst_component (by simp [length_bytesOf]) _ _ _ _ _).trans
      (Nat.mod_eq_of_lt (by omega))
  generalize deviceRecord f pos (pos + f.room b - 1) = r at first last
  -- within reach the addresses are not cut to 32 bits
  have at_base : (fs.base fs.depth).toNat = base := by
    simp only [intReach] at small
    rw [inside, BitVec.toNat_ofNat, Nat.mod_eq_of_lt (by omega)]
  obtain ⟨start, size⟩ := (openRecord_holds fs r).words
    (by simp only [rangeOf, first, last]; omega)
    (by simp only [rangeOf, at_base, last]; omega)
  simp only [rangeOf, Range.length, at_base, first, last] at start size
  simp only [intReach] at small
  have number : (BitVec.ofNat 32 f.content.length).toNat = f.content.length := by
    rw [BitVec.toNat_ofNat, Nat.mod_eq_of_lt (by omega)]
  have signed : (BitVec.ofNat 32 f.content.length).toInt = f.content.length := by
    rw [BitVec.toInt_eq_toNat_of_lt (by omega), number]
  have place : (openRecord fs r).fOffset.toInt = ((base + pos : Nat) : Int) := by
    rw [BitVec.toInt_eq_toNat_of_lt (by omega), start]
  -- the count is within the record, so it is not clamped
  have clamped : clamp (openRecord fs r) 0 (BitVec.ofNat 32 f.content.length) =
      (0, BitVec.ofNat 32 f.content.length) := by
    have forward : ¬(0 : Word).toInt < 0 := by decide
    have fits : ¬(openRecord fs r).fLen < 0 + BitVec.ofNat 32 f.content.length := by
      rw [zero_add, BitVec.lt_def, size, number]
      omega
    simp only [clamp, if_neg forward, if_neg fits]
  have opened : ¬(openRecord fs r).currentp.isNone := by simp [openRecord]
  have same : (openRecord fs r).dev = fs.dev := rfl
  rw [fread, if_neg opened, clamped]
  -- a mapped device is copied, another one read by its method
  by_cases mapped : (openRecord fs r).dev.mapped = true
  · have copied : copyMapped (openRecord fs r) 0 (BitVec.ofNat 32 f.content.length) buf =
        some (f.content ++ buf.drop f.content.length) := by
      simp only [copyMapped, add_zero, start, number, same]
      by_cases empty : f.content = []
      · simp [empty]
      · have length := List.length_pos_iff.mpr empty
        obtain ⟨fits, bytes⟩ := written empty
        rw [if_neg, if_pos ⟨fits, space⟩, bytes]
        intro zero
        rw [zero] at number
        exact absurd number (Nat.ne_of_lt length)
    simp only [mapped, if_true, copied, Option.map_some, signed]
    exact ⟨_, rfl⟩
  · have read : methods.read fs.dev.image ((base + pos : Nat) : Int) f.content.length =
        (f.content, (f.content.length : Int)) := by
      by_cases empty : f.content = []
      · rw [empty]
        exact nothing _ _
      · obtain ⟨fits, bytes⟩ := written empty
        rw [sound.read _ _ _ fits, bytes]
    rw [same] at mapped
    simp only [mapped, add_zero, place, signed, same, read]
    exact ⟨_, rfl⟩

/-! ### The round trip -/

/-- A scan goes on with these records and then ends. -/
def Returns (methods : Methods) : Sdbfs → List Record → Prop
  | fs, [] => ∃ after, scanOn methods fs = some (after, none)
  | fs, r :: more => ∃ after, scanOn methods fs = some (after, some r) ∧ Returns methods after more

/-- A visit returns the records that it visits. -/
theorem Visits.returns {methods : Methods} {fs : Sdbfs} {records : List (Record × Nat)}
    (visits : Visits methods fs records) : Returns methods fs (records.map Prod.fst) := by
  induction records generalizing fs with
  | nil => exact visits
  | cons x more ih =>
    obtain ⟨after, returned, -, rest⟩ := visits
    exact ⟨after, returned, ih rest⟩

/-- The device is the image of the tree, mapped or not. -/
def Stores (blocksize : Word) (dot : Ids) (t : Entries) (dev : Device) : Prop :=
  dev.image = gensdbfs blocksize dot t ∧ dev.convert32 = false ∧ dev.entrypoint = 0

/-- What is expected of the image of a tree. -/
structure RoundTrips (methods : Methods) (blocksize : Word) (dot : Ids) (t : Entries) : Prop where
  /-- No byte is in two tables or files. -/
  disjoint : (piecesOf (allocStorage blocksize dot t).1 (allocStorage blocksize dot t).2).Pairwise
    Piece.Disjoint
  /-- No record of the tree is missing. -/
  complete : ((allocStorage blocksize dot t).2.preorder 0).length = t.total
  scans (fs : Sdbfs) (stored : Stores blocksize dot t fs.dev) : ∃ after,
    scanFirst methods fs = some (after, some (headRecord (allocStorage blocksize dot t).1)) ∧
      Returns methods after (((allocStorage blocksize dot t).2.preorder 0).map Prod.fst)
  /-- Every file is opened and read into any buffer that has room for it. -/
  reads (fs : Sdbfs) (stored : Stores blocksize dot t fs.dev) (f : File) (member : f ∈ t.files)
    (buf : List Byte) (space : f.content.length ≤ buf.length) : ∃ opened after,
    openName methods f.name fs = some (opened, 0) ∧
      fread methods opened 0 buf (BitVec.ofNat 32 f.content.length) =
        some (after, (f.content.length : Int), f.content ++ buf.drop f.content.length)

section Image

variable {methods : Methods} (sound : methods.Sound) (nothing : methods.ReadsNothing)
  {blocksize : Word} {k : Nat} (power : blocksize.toNat = 2 ^ k) (dot : Ids) (t : Entries)
  (nested : t.height < sdbfsDepth) (few : t.count + 1 < 65536)
  (below : t.Below blocksize.toNat 0 (t.start blocksize.toNat))

include power few below in
/-- Where nothing is written twice, the image has every table and every file. -/
theorem gensdbfs_holds (apart : t.Apart blocksize.toNat) :
    ∀ p ∈ t.dirPieces blocksize.toNat dot 0, p.2 ≠ [] →
      HoldsAt (gensdbfs blocksize dot t) p.1 p.2 := by
  have positive := blocksize_pos power
  have disjoint : (t.dirPieces blocksize.toNat dot 0).Pairwise Piece.Disjoint :=
    (dirPieces_disjoint_iff positive dot t 0).mpr
      ((pieces_disjoint_iff positive t 0 (dvd_roundUp _ _)).mpr apart)
  rw [gensdbfs, allocStorage_eq power dot t few below]
  dsimp only
  rw [writeSdb_eq positive]
  exact writePieces_holds [] _ disjoint

include sound nothing power nested few below in
/-- Every file is found and read. -/
theorem file_read (named : t.Named) (apart : t.Apart blocksize.toNat) (fs : Sdbfs)
    (stored : Stores blocksize dot t fs.dev) (f : File) (member : f ∈ t.files) (buf : List Byte)
    (space : f.content.length ≤ buf.length) : ∃ opened after,
    openName methods f.name fs = some (opened, 0) ∧
      fread methods opened 0 buf (BitVec.ofNat 32 f.content.length) =
        some (after, (f.content.length : Int), f.content ++ buf.drop f.content.length) := by
  have positive := blocksize_pos power
  have holds := gensdbfs_holds power dot t few below apart
  obtain ⟨image, asIs, entry⟩ := stored
  rw [← image] at holds
  -- the name belongs to one record of the image only
  obtain ⟨⟨r, base⟩, inside, ⟨pos, record, behind, small, piece⟩, accepted, only⟩ :=
    file_found positive t named (start_pos positive t) below f member
  -- the scan visits all the records, and so stops at this one
  obtain ⟨first, returned, same, visits⟩ :=
    scanFirst_visits sound asIs positive rfl entry nested few below holds
  have enough : ((t.placed blocksize.toNat 0 (t.start blocksize.toNat)).preorder 0).length <
      scanLimit := by
    rw [length_preorder]
    exact total_lt_scanLimit t below few nested
  obtain ⟨last, stopped, same', at_base⟩ := visits.found enough inside accepted only
  dsimp only at record small piece
  subst record
  have short := (named.plain f.name (mem_names_of_mem_files t f member)).1
  have opened : openName methods f.name fs =
      some (openRecord last (deviceRecord f pos (pos + f.room blocksize.toNat - 1)), 0) := by
    rw [openName, if_neg (Nat.not_lt_of_le short), openWanted, returned]
    simp only [Option.bind_eq_bind, Option.bind_some, stopped]
  obtain ⟨after, read⟩ := fread_whole sound nothing positive at_base behind small
    (fun some_bytes => by
      rw [same', same]
      exact holds _ (List.mem_cons_of_mem _ piece) some_bytes) buf space
  exact ⟨_, after, opened, read⟩

include sound nothing power nested few below in
/-- The image of a tree makes the round trip exactly if its directories are apart. -/
theorem image_roundTrips_iff (named : t.Named) :
    RoundTrips methods blocksize dot t ↔ t.Apart blocksize.toNat := by
  have positive := blocksize_pos power
  have alloc := allocStorage_eq power dot t few below
  constructor
  · intro trips
    -- if every file reads back, no two pieces of the image overlap
    have disjoint := trips.disjoint
    rw [alloc] at disjoint
    exact (pieces_disjoint_iff positive t 0 (dvd_roundUp _ _)).mp
      ((dirPieces_disjoint_iff positive dot t 0).mp disjoint)
  · intro apart
    have holds := gensdbfs_holds power dot t few below apart
    refine ⟨?_, ?_, fun fs stored => ?_, file_read sound nothing power dot t nested few below named
      apart⟩
    · rw [alloc]
      exact (dirPieces_disjoint_iff positive dot t 0).mpr
        ((pieces_disjoint_iff positive t 0 (dvd_roundUp _ _)).mpr apart)
    · rw [alloc]
      exact length_preorder _ t _ _
    · rw [alloc]
      obtain ⟨image, asIs, entry⟩ := stored
      rw [← image] at holds
      obtain ⟨after, returned, -, visits⟩ :=
        scanFirst_visits sound asIs positive rfl entry nested few below holds
      exact ⟨after, returned, visits.returns⟩

end Image

/-! ### A directory that ends on a block -/

def exampleIds : Ids := ⟨0, 0⟩

def exampleFile (name : Byte) (content : List Byte) : File :=
  ⟨[name], exampleIds, 0, false, content⟩

/-- The file `b` behind a directory with the file `a`. -/
def exampleTree (a : List Byte) : Entries :=
  .dir [0x64] exampleIds exampleIds (.file (exampleFile 0x61 a) .nil)
    (.file (exampleFile 0x62 [0x42]) .nil)

private theorem fileMethods_readsNothing : fileMethods.ReadsNothing := by
  intro image offset
  have forward : ¬((offset : Int) < 0) := by omega
  simp only [fileMethods, if_neg forward, Int.toNat_zero, List.take_zero, List.length_nil,
    Nat.cast_zero]

private theorem exampleTree_named (a : List Byte) : (exampleTree a).Named where
  distinct := by
    change ([[0x64], [0x61], [0x62]] : List (List Byte)).Nodup
    decide
  plain := by
    change ∀ name ∈ ([[0x64], [0x61], [0x62]] : List (List Byte)), PlainName name
    decide
  entries := by
    change dotName ∉ ([[0x64], [0x61], [0x62]] : List (List Byte))
    decide

/-- With 64 bytes in `a`, the directory ends with its last block. -/
theorem roundTrips_whole_block :
    RoundTrips fileMethods 64 exampleIds (exampleTree (List.replicate 64 0x41)) :=
  (image_roundTrips_iff fileMethods_sound fileMethods_readsNothing
    (show (64 : Word).toNat = 2 ^ 6 by decide) exampleIds (exampleTree (List.replicate 64 0x41))
    (by decide) (by decide) (by decide) (exampleTree_named _)).mpr (by decide)

/-- The image of the tree, mapped into memory. -/
def exampleDevice (a : List Byte) : Device where
  image := gensdbfs 64 exampleIds (exampleTree a)
  mapped := true
  convert32 := false
  zeroBased := false
  entrypoint := 0

/-- What is read from `a`. -/
def exampleRead (a : List Byte) : Option (List Byte) :=
  (openName fileMethods [0x61] (Session.fresh (exampleDevice a)).fs).bind fun opened =>
    (fread fileMethods opened.1 0 (List.replicate a.length 0) (BitVec.ofNat 32 a.length)).map
      fun read => read.2.2

/-- With 65 bytes, `b` is written over the last one. -/
theorem file_overwritten :
    ¬RoundTrips fileMethods 64 exampleIds (exampleTree (List.replicate 65 0x41)) := by
  intro trips
  obtain ⟨opened, after, found, read⟩ := trips.reads
    (Session.fresh (exampleDevice (List.replicate 65 0x41))).fs ⟨rfl, rfl, rfl⟩
    (exampleFile 0x61 (List.replicate 65 0x41)) List.mem_cons_self (List.replicate 65 0) (by decide)
  have whole : exampleRead (List.replicate 65 0x41) = some (List.replicate 65 0x41) := by
    change (openName fileMethods (exampleFile 0x61 (List.replicate 65 0x41)).name _).bind _ = _
    rw [found]
    change (fread fileMethods opened 0 (List.replicate 65 0) (BitVec.ofNat 32
      (exampleFile 0x61 (List.replicate 65 0x41)).content.length)).map _ = _
    rw [read]
    rfl
  exact absurd whole (by decide +kernel)

end WrSwitch.Sdb
