import Mathlib.Data.BitVec
import Mathlib.Logic.Function.Basic

/-!
# libsdb

`glue.c` and `access.c` on the switch, where an `unsigned long` has 32 bits and the least
significant byte comes first. A device is mapped into memory, or it has a read and a write method:
a device that lacks both is left out. An outcome `none` stands for a call that does not return, or
that touches memory that is neither image nor buffer.
-/
namespace WrSwitch.Sdb

abbrev Byte := BitVec 8

/-- An `unsigned long`, or the bits of an `int`. -/
abbrev Word := BitVec 32

/-! ### Records -/

/-- The 64 bytes of a record. -/
abbrev Record := List Byte

/-- A number with its most significant byte first, as `ntohl` and its like give it. -/
def field (r : Record) (start size : Nat) : Nat :=
  ((r.drop start).take size).foldl (fun v b => v * 256 + b.toNat) 0

/-- A number as the processor loads it. -/
def rawField (r : Record) (start size : Nat) : Nat :=
  ((r.drop start).take size).foldr (fun b v => b.toNat + v * 256) 0

def recordType (r : Record) : Byte := r.getD 63 0

def sdbTypeInterconnect : Byte := 0
def sdbTypeBridge : Byte := 2

def sdbMagic : Nat := 0x5344422d

def sdbRecords (r : Record) : Nat := field r 4 2
def sdbChild (r : Record) : Nat := field r 0 8
def addrFirst (r : Record) : Nat := field r 8 8
def addrLast (r : Record) : Nat := field r 16 8
def vendorId (r : Record) : Nat := rawField r 24 8
def deviceId (r : Record) : Nat := rawField r 32 4
def productName (r : Record) : List Byte := (r.drop 44).take 19

/-- What `ntohl` makes of each word of a record. -/
def swapWords : List Byte → List Byte
  | a :: b :: c :: d :: rest => d :: c :: b :: a :: swapWords rest
  | rest => rest

/-! ### The device -/

/-- The methods that the driver of a device offers. The offset and the count are of type `int`. -/
structure Methods where
  read : List Byte → Int → Int → List Byte × Int
  write : List Byte → Int → List Byte → Int → List Byte × Int

/-- The fields of `struct sdbfs` that describe the device. -/
structure Device where
  image : List Byte
  /-- `data` is set -/
  mapped : Bool
  /-- `SDBFS_F_CONVERT32` -/
  convert32 : Bool
  /-- `SDBFS_F_ZEROBASED`: the records are read from address 0 on where `data` is not set. -/
  zeroBased : Bool
  entrypoint : Word
  deriving DecidableEq

/-- `struct sdbfs`. The current record is kept by value. -/
structure Sdbfs where
  dev : Device
  currentp : Option Record
  fLen : Word
  fOffset : Word
  readOffset : Word
  base : Nat → Word
  this : Nat → Word
  nleft : Nat → Int
  depth : Nat

def sdbfsDepth : Nat := 4

/-- The size of a record. -/
def recordSize : Nat := 64

variable (methods : Methods)

/-- `sdbfs_readentry`, `none` where the record is not inside the image. -/
def readEntry (dev : Device) (offset : Word) : Option Record :=
  if offset.toNat + recordSize ≤ dev.image.length then
    let raw := if dev.mapped ∨ dev.zeroBased then (dev.image.drop offset.toNat).take recordSize
      else (methods.read dev.image offset.toInt recordSize).1
    some (if dev.convert32 then swapWords raw else raw)
  else none

/-! ### Scanning -/

/-- A record that `scan_newdir` takes for the head of a directory. -/
def isDirectory (r : Record) : Bool :=
  recordType r = sdbTypeInterconnect ∧ field r 0 4 = sdbMagic

def isBridge (r : Record) : Bool := recordType r = sdbTypeBridge

/-- What `scan_newdir` leaves where there is a directory. -/
def openDirectory (fs : Sdbfs) (depth : Nat) (dev : Record) : Sdbfs :=
  { fs with
    currentp := some dev
    nleft := Function.update fs.nleft depth (sdbRecords dev - 1)
    this := Function.update fs.this depth (fs.this depth + BitVec.ofNat 32 recordSize)
    depth := depth }

/-- `scan_newdir`, and whether there is a directory. -/
def scanNewdir (fs : Sdbfs) (depth : Nat) : Option (Sdbfs × Bool) := do
  let dev ← readEntry methods fs.dev (fs.this depth)
  some (if isDirectory dev then (openDirectory fs depth dev, true)
    else ({ fs with currentp := some dev }, false))

/-- The loop at the end of a directory: the depth that still has entries. -/
def cdUp (nleft : Nat → Int) : Nat → Option Nat
  | 0 => if nleft 0 = 0 then none else some 0
  | depth + 1 => if nleft (depth + 1) = 0 then cdUp nleft depth else some (depth + 1)

/-- The exit of `sdbfs_scan` with a record. -/
def scanOut (fs : Sdbfs) (dev : Record) : Sdbfs × Option Record :=
  ({ fs with fOffset := fs.base fs.depth + BitVec.ofNat 32 (addrFirst dev) }, some dev)

/-- What reading an entry of a directory leaves. -/
def takeEntry (fs : Sdbfs) (depth : Nat) (dev : Record) : Sdbfs :=
  { fs with
    currentp := some dev
    this := Function.update fs.this depth (fs.this depth + BitVec.ofNat 32 recordSize)
    nleft := Function.update fs.nleft depth (fs.nleft depth - 1)
    depth := depth }

/-- Reads the next entry of the directories on the path. -/
def scanNext (fs : Sdbfs) : Option (Sdbfs × Option Record) :=
  match cdUp fs.nleft fs.depth with
  | none => some ({ fs with depth := 0 }, none)
  | some depth => do
    let dev ← readEntry methods fs.dev (fs.this depth)
    some (scanOut (takeEntry fs depth dev) dev)

/-- Back to the entry point. -/
def restart (fs : Sdbfs) : Sdbfs :=
  { fs with
    base := Function.update fs.base 0 0
    this := Function.update fs.this 0 fs.dev.entrypoint
    depth := 0 }

/-- `sdbfs_scan(fs, 1)` -/
def scanFirst (fs : Sdbfs) : Option (Sdbfs × Option Record) := do
  match ← scanNewdir methods (restart fs) 0 with
  | (fs, true) => fs.currentp.map (scanOut fs)
  | (fs, false) => some (fs, none)

/-- Goes into the bridge that was returned last. -/
def enterBridge (fs : Sdbfs) (bridge : Record) : Sdbfs :=
  { fs with
    this := Function.update fs.this (fs.depth + 1)
      (fs.base fs.depth + BitVec.ofNat 32 (sdbChild bridge))
    base := Function.update fs.base (fs.depth + 1)
      (fs.base fs.depth + BitVec.ofNat 32 (addrFirst bridge)) }

/-- `sdbfs_scan(fs, 0)` -/
def scanOn (fs : Sdbfs) : Option (Sdbfs × Option Record) := do
  let current ← fs.currentp
  if isBridge current ∧ fs.depth + 1 < sdbfsDepth then
    match ← scanNewdir methods (enterBridge fs current) (fs.depth + 1) with
    | (fs, true) => fs.currentp.map (scanOut fs)
    | (fs, false) => scanNext methods fs
  else scanNext methods fs

/-- More steps than any scan takes that ends. -/
def scanLimit : Nat := 65536 ^ 4

/-- Goes on with a scan up to a wanted record. -/
def scanUntil (wanted : Record → Bool) : Nat → Sdbfs → Option (Sdbfs × Option Record)
  | 0, _ => none
  | steps + 1, fs => do
    match ← scanOn methods fs with
    | (fs, none) => some (fs, none)
    | (fs, some dev) => if wanted dev then some (fs, some dev) else scanUntil wanted steps fs

/-- A scan from the first record to the end, as in `do_list`. -/
def fullScan (fs : Sdbfs) : Option (Sdbfs × Option Record) := do
  match ← scanFirst methods fs with
  | (fs, none) => some (fs, none)
  | (fs, some _) => scanUntil methods (fun _ => false) scanLimit fs

/-! ### Opening -/

def enoent : Int := 2

/-- `__open` -/
def openRecord (fs : Sdbfs) (dev : Record) : Sdbfs :=
  { fs with
    currentp := some dev
    fOffset := fs.base fs.depth + BitVec.ofNat 32 (addrFirst dev)
    fLen := (BitVec.ofNat 64 (addrLast dev) + 1 - BitVec.ofNat 64 (addrFirst dev)).setWidth 32
    readOffset := 0 }

/-- The loop that `sdbfs_open_name` and `sdbfs_open_id` share. -/
def openWanted (wanted : Record → Bool) (fs : Sdbfs) : Option (Sdbfs × Int) := do
  let (fs, _) ← scanFirst methods fs
  match ← scanUntil methods wanted scanLimit fs with
  | (fs, some dev) => some (openRecord fs dev, 0)
  | (fs, none) => some (fs, -enoent)

/-- Whether `strncmp` and the blank behind it accept a record. -/
def hasName (name : List Byte) (r : Record) : Bool :=
  (productName r).take name.length = name ∧
    (name.length < 19 → (productName r).getD name.length 0 = 0x20)

/-- `sdbfs_open_name` -/
def openName (name : List Byte) (fs : Sdbfs) : Option (Sdbfs × Int) :=
  if 19 < name.length then some (fs, -enoent) else openWanted methods (hasName name) fs

/-- `sdbfs_open_id` -/
def openId (vid : BitVec 64) (did : BitVec 32) (fs : Sdbfs) : Option (Sdbfs × Int) :=
  openWanted methods (fun r => vid.toNat = vendorId r ∧ did.toNat = deviceId r) fs

/-! ### Reading and writing -/

/-- The offset and the count that the first lines of `sdbfs_fread` and of `sdbfs_fwrite` leave. -/
def clamp (fs : Sdbfs) (offset count : Word) : Word × Word :=
  let offset := if offset.toInt < 0 then fs.readOffset else offset
  (offset, if fs.fLen < offset + count then fs.fLen - offset else count)

/-- The last lines of both. -/
def advance (fs : Sdbfs) (offset : Word) (ret : Int) : Sdbfs :=
  if 0 < ret then { fs with readOffset := offset + BitVec.ofInt 32 ret } else fs

/-- `memcpy(buf, fs->data + fs->f_offset + offset, count)`, where the count becomes a `size_t`. -/
def copyMapped (fs : Sdbfs) (offset count : Word) (buf : List Byte) : Option (List Byte) :=
  let start := (fs.fOffset + offset).toNat
  -- no byte of either is touched
  if count = 0 then some buf
  else if start + count.toNat ≤ fs.dev.image.length ∧ count.toNat ≤ buf.length then
    some ((fs.dev.image.drop start).take count.toNat ++ buf.drop count.toNat)
  else none

/-- `sdbfs_fread`: the state, the result and the buffer. -/
def fread (fs : Sdbfs) (offset : Word) (buf : List Byte) (count : Word) :
    Option (Sdbfs × Int × List Byte) :=
  if fs.currentp.isNone then some (fs, -enoent, buf)
  else
    let (offset, count) := clamp fs offset count
    if fs.dev.mapped then
      (copyMapped fs offset count buf).map fun buf =>
        (advance fs offset count.toInt, count.toInt, buf)
    else
      let (bytes, ret) := methods.read fs.dev.image (fs.fOffset + offset).toInt count.toInt
      some (advance fs offset ret, ret, bytes ++ buf.drop bytes.length)

/-- `sdbfs_fwrite`. On a mapped device it copies in the same direction as `sdbfs_fread`. -/
def fwrite (fs : Sdbfs) (offset : Word) (buf : List Byte) (count : Word) :
    Option (Sdbfs × Int × List Byte) :=
  if fs.currentp.isNone then some (fs, -enoent, buf)
  else
    let (offset, count) := clamp fs offset count
    if fs.dev.mapped then
      (copyMapped fs offset count buf).map fun buf =>
        (advance fs offset count.toInt, count.toInt, buf)
    else
      let (image, ret) := methods.write fs.dev.image (fs.fOffset + offset).toInt buf count.toInt
      some (advance { fs with dev := { fs.dev with image := image } } offset ret, ret, buf)

end WrSwitch.Sdb
