import WrSwitch.Machine.Pieces
import WrSwitch.Sdb.Library

/-!
# gensdbfs

`alloc_storage` and `write_sdb` of `gensdbfs.c` on the tree that `prepare_dir` has read, without
`position` and `maxsize`. An `unsigned long` has 64 bits; a position is below 2^32 and a size below
2^63, so that no sum leaves it.
-/
namespace WrSwitch.Sdb

open Machine

/-! ### The tree -/

/-- `vendor_id` and `device_id`, as `__fill_product` or the configuration file has them. -/
structure Ids where
  vendorId : BitVec 64
  deviceId : BitVec 32
  deriving DecidableEq

/-- A regular file. The bits of its mode and `write` of the configuration file are in
`bus_specific`. -/
structure File where
  name : List Byte
  ids : Ids
  busSpecific : BitVec 32
  /-- `S_IWOTH` is set. -/
  writable : Bool
  content : List Byte
  deriving DecidableEq

/-- The slots of a `struct sdbf` array behind slot 0, as `scan_inputdir` fills them. A directory
comes with the numbers of its bridge and of its own slot 0. -/
inductive Entries where
  | nil
  | file (f : File) (rest : Entries)
  | dir (name : List Byte) (ids dot : Ids) (sub rest : Entries)

namespace Entries

def count : Entries → Nat
  | nil => 0
  | file _ rest => rest.count + 1
  | dir _ _ _ _ rest => rest.count + 1

/-- How deep directories are nested in an array. -/
def height : Entries → Nat
  | nil => 0
  | file _ rest => rest.height
  | dir _ _ _ sub rest => max (sub.height + 1) rest.height

def files : Entries → List File
  | nil => []
  | file f rest => f :: rest.files
  | dir _ _ _ sub rest => sub.files ++ rest.files

/-- The names of all files and directories. -/
def names : Entries → List (List Byte)
  | nil => []
  | file f rest => f.name :: rest.names
  | dir name _ _ sub rest => name :: (sub.names ++ rest.names)

/-- `sdb_records`, of 16 bits -/
def sdbRecords (t : Entries) : Nat := (t.count + 1) % 65536

end Entries

/-! ### Placing the files -/

/-- `SDB_ALIGN`, where the mask is an `unsigned int`. -/
def sdbAlign (blocksize : Word) (x : Nat) : Nat :=
  (x + (blocksize - 1).toNat) &&& (~~~(blocksize - 1)).toNat

/-- The size that `__fill_file` gives to a file. -/
def File.size (blocksize : Word) (f : File) : Nat :=
  if f.writable then sdbAlign blocksize f.content.length else f.content.length

/-- `rpos + f->size - 1` -/
def lastOf (rpos size : Nat) : Nat := (rpos + size + (2 ^ 64 - 1)) % 2 ^ 64

/-- Slot 0 of an array. -/
structure Head where
  dot : Ids
  base : Nat
  records : Nat
  addrLast : Nat
  deriving DecidableEq

/-- The slots behind it, after `alloc_storage`. `addr_first`, and `sdb_child` of a bridge, are the
`rstart`. -/
inductive Sdbf where
  | nil
  | file (f : File) (rstart addrLast : Nat) (rest : Sdbf)
  | dir (name : List Byte) (ids : Ids) (rstart addrLast : Nat) (head : Head) (sub rest : Sdbf)

/-- The loop of `alloc_storage` over `left` slots, and the last address of the directory. -/
def allocLoop (blocksize : Word) :
    (t : Entries) → (base left rpos last : Nat) → Sdbf × Nat
  | .nil, _, _, _, last => (.nil, last)
  | .file _ _, _, 0, _, last => (.nil, last)
  | .dir _ _ _ _ _, _, 0, _, last => (.nil, last)
  | .file f rest, base, left + 1, rpos, last =>
    let l := lastOf rpos (f.size blocksize)
    let (rest, last) :=
      allocLoop blocksize rest base left (sdbAlign blocksize (rpos + f.size blocksize)) (max last l)
    (.file f rpos l rest, last)
  | .dir name ids dot sub rest, base, left + 1, rpos, last =>
    -- the directory allocates itself
    let records := sub.sdbRecords
    let start := sdbAlign blocksize (records * recordSize)
    let (sub, subsize) := allocLoop blocksize sub (base + rpos) (records - 1) start start
    let l := lastOf rpos subsize
    let (rest, last) :=
      allocLoop blocksize rest base left (sdbAlign blocksize (rpos + subsize)) (max last l)
    (.dir name ids rpos l ⟨dot, base + rpos, records, subsize⟩ sub rest, last)

/-- `alloc_storage` for the whole tree -/
def allocStorage (blocksize : Word) (dot : Ids) (t : Entries) : Head × Sdbf :=
  let start := sdbAlign blocksize (t.sdbRecords * recordSize)
  let (sub, last) := allocLoop blocksize t 0 (t.sdbRecords - 1) start start
  (⟨dot, 0, t.sdbRecords, last⟩, sub)

/-! ### Records -/

/-- A number with its most significant byte first, as `htonl` and its like store it. -/
def bytesOf : Nat → Nat → List Byte
  | 0, _ => []
  | size + 1, v => bytesOf size (v / 256) ++ [BitVec.ofNat 8 v]

/-- The blank-filled name of a product. -/
def fillName (name : List Byte) : List Byte :=
  name.take 19 ++ List.replicate (19 - name.length) 0x20

/-- `struct sdb_component`. The version is 1 and the date is 0. -/
def component (first last : Nat) (name : List Byte) (ids : Ids) (type : Byte) : List Byte :=
  bytesOf 8 first ++ bytesOf 8 last ++ bytesOf 8 ids.vendorId.toNat ++
    bytesOf 4 ids.deviceId.toNat ++ bytesOf 4 1 ++ bytesOf 4 0 ++ fillName name ++ [type]

def sdbTypeDevice : Byte := 1
def sdbData : Nat := 1

def dotName : List Byte := [0x2e]

/-- `struct sdb_device` -/
def deviceRecord (f : File) (rstart addrLast : Nat) : Record :=
  bytesOf 4 0 ++ bytesOf 4 f.busSpecific.toNat ++
    component rstart addrLast f.name f.ids sdbTypeDevice

/-- `struct sdb_bridge` -/
def bridgeRecord (name : List Byte) (ids : Ids) (rstart addrLast : Nat) : Record :=
  bytesOf 8 rstart ++ component rstart addrLast name ids sdbTypeBridge

/-- `struct sdb_interconnect` -/
def headRecord (head : Head) : Record :=
  bytesOf 4 sdbMagic ++ bytesOf 2 head.records ++ bytesOf 1 1 ++ bytesOf 1 sdbData ++
    component 0 head.addrLast dotName head.dot sdbTypeInterconnect

/-- The records of an array behind slot 0. -/
def Sdbf.records : Sdbf → List Record
  | .nil => []
  | .file f rstart addrLast rest => deviceRecord f rstart addrLast :: rest.records
  | .dir name ids rstart addrLast _ _ rest =>
    bridgeRecord name ids rstart addrLast :: rest.records

/-- The bytes of a directory. -/
def table (head : Head) (slots : Sdbf) : List Byte :=
  ((headRecord head :: slots.records).take head.records).flatten

/-! ### Writing the image -/

/-- The loop that copies a file block by block. -/
def copyLoop (blocksize : Nat) : Nat → List Byte → Nat → List Byte → List Byte
  | 0, _, _, out => out
  | turns + 1, unread, pos, out =>
    let buf := unread.take blocksize
    if buf = [] then out
    else copyLoop blocksize turns (unread.drop blocksize) (pos + buf.length) (writeAt out pos buf)

/-- The loop of `write_sdb` over the slots. -/
def writeLoop (blocksize : Word) : (base : Nat) → Sdbf → List Byte → List Byte
  | _, .nil, out => out
  | base, .file f rstart _ rest, out =>
    writeLoop blocksize base rest
      (copyLoop blocksize.toNat f.content.length f.content (base + rstart) out)
  | base, .dir _ _ _ _ head sub rest, out =>
    writeLoop blocksize base rest
      (writeLoop blocksize head.base sub (writeAt out head.base (table head sub)))

/-- `write_sdb` -/
def writeSdb (blocksize : Word) (head : Head) (slots : Sdbf) (out : List Byte) : List Byte :=
  writeLoop blocksize head.base slots (writeAt out head.base (table head slots))

/-- The image of a tree. -/
def gensdbfs (blocksize : Word) (dot : Ids) (t : Entries) : List Byte :=
  let (head, slots) := allocStorage blocksize dot t
  writeSdb blocksize head slots []

/-! ### Where everything is -/

/-- Every directory table and every file, in the order in which they are written. -/
def Sdbf.pieces : (base : Nat) → Sdbf → List (Piece Byte)
  | _, .nil => []
  | base, .file f rstart _ rest => (base + rstart, f.content) :: rest.pieces base
  | base, .dir _ _ _ _ head sub rest =>
    (head.base, table head sub) :: (sub.pieces head.base ++ rest.pieces base)

def piecesOf (head : Head) (slots : Sdbf) : List (Piece Byte) :=
  (head.base, table head slots) :: slots.pieces head.base

/-- The records of a tree in pre-order, each with the base of its directory. -/
def Sdbf.preorder : (base : Nat) → Sdbf → List (Record × Nat)
  | _, .nil => []
  | base, .file f rstart addrLast rest =>
    (deviceRecord f rstart addrLast, base) :: rest.preorder base
  | base, .dir name ids rstart addrLast head sub rest =>
    (bridgeRecord name ids rstart addrLast, base) :: (headRecord head, head.base) ::
      (sub.preorder head.base ++ rest.preorder base)

/-! ### The image is written in pieces -/

private theorem copyLoop_eq {blocksize : Nat} (positive : 0 < blocksize) (turns : Nat)
    (unread : List Byte) (pos : Nat) (out : List Byte) (enough : unread.length ≤ turns) :
    copyLoop blocksize turns unread pos out = writeAt out pos unread := by
  induction turns generalizing unread pos out with
  | zero =>
    rw [List.length_eq_zero_iff.mp (Nat.le_zero.mp enough), writeAt_nil]
    rfl
  | succ turns ih =>
    rw [copyLoop]
    by_cases done : unread = []
    · rw [done, List.take_nil, if_pos rfl, writeAt_nil]
    · have length := List.length_pos_iff.mpr done
      have more : unread.take blocksize ≠ [] := by
        rw [ne_eq, List.take_eq_nil_iff]
        exact not_or.mpr ⟨by omega, done⟩
      rw [if_neg more, ih _ _ _ (by rw [List.length_drop]; omega), writeAt_append,
        List.take_append_drop]

private theorem writeLoop_eq {blocksize : Word} (positive : 0 < blocksize.toNat) (slots : Sdbf)
    (base : Nat) (out : List Byte) :
    writeLoop blocksize base slots out = writePieces out (slots.pieces base) := by
  induction slots generalizing base out with
  | nil => rfl
  | file f rstart addrLast rest ih =>
    rw [writeLoop, copyLoop_eq positive _ _ _ _ (Nat.le_refl _), ih]
    rfl
  | dir name ids rstart addrLast head sub rest ihSub ih =>
    rw [writeLoop, ihSub, ih, Sdbf.pieces, writePieces, writePieces, writePieces,
      List.foldl_cons, List.foldl_append]

/-- What is written are the pieces of the image. -/
theorem writeSdb_eq {blocksize : Word} (positive : 0 < blocksize.toNat) (head : Head)
    (slots : Sdbf) (out : List Byte) :
    writeSdb blocksize head slots out = writePieces out (piecesOf head slots) :=
  writeLoop_eq positive slots head.base _

/-! ### Lengths -/

theorem length_bytesOf (size v : Nat) : (bytesOf size v).length = size := by
  induction size generalizing v with
  | zero => rfl
  | succ size ih => rw [bytesOf, List.length_append, ih, List.length_singleton]

private theorem length_fillName (name : List Byte) : (fillName name).length = 19 := by
  rw [fillName, List.length_append, List.length_take, List.length_replicate]
  omega

private theorem length_component (first last : Nat) (name : List Byte) (ids : Ids) (type : Byte) :
    (component first last name ids type).length = 56 := by
  simp [component, length_bytesOf, length_fillName]

/-- A record has 64 bytes. -/
theorem length_headRecord (head : Head) : (headRecord head).length = recordSize := by
  simp [headRecord, length_component, length_bytesOf, recordSize]

theorem length_deviceRecord (f : File) (rstart addrLast : Nat) :
    (deviceRecord f rstart addrLast).length = recordSize := by
  simp [deviceRecord, length_component, length_bytesOf, recordSize]

theorem length_bridgeRecord (name : List Byte) (ids : Ids) (rstart addrLast : Nat) :
    (bridgeRecord name ids rstart addrLast).length = recordSize := by
  simp [bridgeRecord, length_component, length_bytesOf, recordSize]

theorem length_records (slots : Sdbf) : ∀ r ∈ slots.records, r.length = recordSize := by
  induction slots with
  | nil => exact fun r member => absurd member List.not_mem_nil
  | file f rstart addrLast rest ih =>
    exact List.forall_mem_cons.mpr ⟨length_deviceRecord f rstart addrLast, ih⟩
  | dir name ids rstart addrLast head sub rest _ ih =>
    exact List.forall_mem_cons.mpr ⟨length_bridgeRecord name ids rstart addrLast, ih⟩

theorem length_flatten_records {records : List Record}
    (lengths : ∀ r ∈ records, r.length = recordSize) :
    records.flatten.length = records.length * recordSize := by
  induction records with
  | nil => simp
  | cons r records ih =>
    obtain ⟨first, others⟩ := List.forall_mem_cons.mp lengths
    rw [List.flatten_cons, List.length_append, ih others, first, List.length_cons, Nat.succ_mul,
      Nat.add_comm]

/-! ### Records read back -/

private theorem foldl_bytesOf (size v : Nat) :
    (bytesOf size v).foldl (fun v b => v * 256 + b.toNat) 0 = v % 256 ^ size := by
  induction size generalizing v with
  | zero => exact (Nat.mod_one v).symm
  | succ size ih =>
    have power : 256 ^ (size + 1) = 256 * 256 ^ size := Nat.pow_succ'
    rw [bytesOf, List.foldl_append, ih, List.foldl_cons, List.foldl_nil, BitVec.toNat_ofNat, power,
      Nat.mod_mul]
    omega

/-- A field is read as it was written. -/
theorem field_bytesOf {r : List Byte} {start : Nat} (front : List Byte) (size v : Nat)
    (whole : ∃ back, r = front ++ (bytesOf size v ++ back)) (length : front.length = start) :
    field r start size = v % 256 ^ size := by
  obtain ⟨back, whole⟩ := whole
  rw [field, whole, ← length, List.drop_left, List.take_left' (length_bytesOf size v),
    foldl_bytesOf]

section Component

variable {head : List Byte} (eight : head.length = 8) (first last : Nat) (name : List Byte)
  (ids : Ids) (type : Byte)
include eight

theorem addrFirst_component :
    addrFirst (head ++ component first last name ids type) = first % 2 ^ 64 :=
  field_bytesOf head 8 first (by simp [component]) eight

theorem addrLast_component :
    addrLast (head ++ component first last name ids type) = last % 2 ^ 64 :=
  field_bytesOf (head ++ bytesOf 8 first) 8 last (by simp [component])
    (by rw [List.length_append, eight, length_bytesOf])

theorem productName_component :
    productName (head ++ component first last name ids type) = fillName name := by
  have front : (head ++ (bytesOf 8 first ++ bytesOf 8 last ++ bytesOf 8 ids.vendorId.toNat ++
      bytesOf 4 ids.deviceId.toNat ++ bytesOf 4 1 ++ bytesOf 4 0)).length = 44 := by
    simp [length_bytesOf, eight]
  rw [productName, component, List.append_assoc _ (fillName name), ← List.append_assoc head,
    List.drop_left' front, List.take_left' (length_fillName name)]

theorem recordType_component :
    recordType (head ++ component first last name ids type) = type := by
  have front : (head ++ (bytesOf 8 first ++ bytesOf 8 last ++ bytesOf 8 ids.vendorId.toNat ++
      bytesOf 4 ids.deviceId.toNat ++ bytesOf 4 1 ++ bytesOf 4 0 ++
      fillName name)).length = 63 := by
    simp [length_bytesOf, length_fillName, eight]
  rw [recordType, component, ← List.append_assoc head, List.getD_eq_getElem?_getD,
    List.getElem?_append_right (Nat.le_of_eq front), front]
  rfl

end Component

end WrSwitch.Sdb
