import WrSwitch.Rtu.Driver
import WrSwitch.Machine.Prefix

/-!
# The filtering database

`rtu_fd.c`: the mirror `rtu_htab` of the hash table, the request list that carries
changes to the hardware, and the operations of the daemon on them.
-/
namespace WrSwitch.Rtu

/-- The slots of the table in the order of the nested loops over rows and buckets. -/
def slots : List (Nat × Nat) :=
  (List.range htabEntries).flatMap fun i => (List.range rtuBuckets).map fun j => (i, j)

/-- Store to `rtu_htab[i][j]`. -/
def Htab.set (rtuHtab : Htab) (i j : Nat) (ent : RtuFilteringEntry) : Htab :=
  fun h b => if h = i ∧ b = j then ent else rtuHtab h b

def setEntry (i j : Nat) (ent : RtuFilteringEntry) (s : RtuState) : RtuState :=
  { s with rtuHtab := s.rtuHtab.set i j ent }

def htabSearch (rtuHtab : Htab) (mac : Mac) (fid : Byte) : Option (Nat × Nat) :=
  slots.find? fun ij =>
    let tmp := rtuHtab ij.1 ij.2
    decide (tmp.valid ≠ 0 ∧ tmp.mac = mac ∧ tmp.fid = fid)

def htabCountBuckets (rtuHtab : Htab) (hash : Nat) : Nat :=
  Machine.countBelow (fun i => (rtuHtab hash i).valid ≠ 0) rtuBuckets

def toMemAddr (addr : RtuAddr) : Nat := ((0x07FF &&& addr.hash) <<< 5) ||| ((0x0003 &&& addr.bucket) <<< 3)

/-! ### Requests to the hardware -/

def hwRequest (type : HwReqType) (addr : RtuAddr) (entryPtr : Nat × Nat) (s : RtuState) : RtuState :=
  { s with hwReqList := s.hwReqList ++ [⟨type, addr, entryPtr⟩] }

/-- The `memset` and the `memmove` of `delete_htab_entry` on one row with `nBuckets`
valid entries. The move starts above the erased slot and leaves the last one as it is. -/
def compactRow (row : Nat → RtuFilteringEntry) (bucket nBuckets : Nat) : Nat → RtuFilteringEntry :=
  let erased := fun b => if b = bucket then .zero else row b
  if bucket + 1 < nBuckets then
    fun b => if bucket ≤ b ∧ b + 1 < nBuckets then erased (b + 1) else erased b
  else erased

/-- What `delete_htab_entry` does to the mirror. -/
def Htab.erase (rtuHtab : Htab) (addr : RtuAddr) : Htab :=
  fun h b => if h = addr.hash then
    compactRow (rtuHtab addr.hash) addr.bucket (htabCountBuckets rtuHtab addr.hash) b
  else rtuHtab h b

def deleteHtabEntry (addr : RtuAddr) (s : RtuState) : RtuState :=
  let nBuckets := htabCountBuckets s.rtuHtab addr.hash
  let s := { s with rtuHtab := s.rtuHtab.erase addr }
  (List.range nBuckets).foldl (fun s i =>
    rtuWriteHtabEntry (toMemAddr ⟨addr.hash, i⟩) (s.rtuHtab addr.hash i)
      (decide (i + 1 = nBuckets)) s) s

/-- One turn of the loop of `rtu_hw_commit`. -/
def rtuHwCommitReq (s : RtuState) (req : HwReq) : RtuState :=
  match req.type with
  | .write => rtuWriteHtabEntry (toMemAddr req.addr) (s.rtuHtab req.entryPtr.1 req.entryPtr.2) true s
  | .remove => deleteHtabEntry req.addr s

def rtuHwCommit (s : RtuState) : RtuState := s.hwReqList.foldl rtuHwCommitReq s

def rtuFdCommit (s : RtuState) : RtuState :=
  if s.hwReqList = [] then s else { rtuHwCommit s with hwReqList := [] }

/-! ### Creating entries -/

/-- The destination mask an update stores. -/
def updatedMask (atExistingEntry : Int) (portMask : Word) (ent : RtuFilteringEntry) : Word :=
  if atExistingEntry = addToExisting then portMask ||| ent.portMaskDst else portMask

/-- Case 1 of `rtu_fd_create_entry`: the pair is already in slot `(i, j)`. -/
def fdUpdateEntry (i j : Nat) (portMask dynamic : Word) (atExistingEntry : Int) (now : Word)
    (s : RtuState) : RtuState :=
  let ent := s.rtuHtab i j
  let maskDst := updatedMask atExistingEntry portMask ent
  let maskSrc : Word := 0xFFFFFFFF
  if atExistingEntry = overrideExistingDynamic ∧ ent.dynamic = rtuEntryTypeStatic ∧
      dynamic = rtuEntryTypeDynamic then s
  else if ent.portMaskDst ≠ maskDst ∨ ent.portMaskSrc ≠ maskSrc ∨ ent.dynamic ≠ dynamic then
    hwRequest .write ent.addr (i, j) (setEntry i j { ent with
      portMaskDst := maskDst, portMaskSrc := maskSrc, dynamic := dynamic, lastAccessT := now } s)
  else s

/-- Case 2 of `rtu_fd_create_entry`: the pair is new and the row has a free bucket. -/
def fdInsertEntry (mac : Mac) (fid : Byte) (eaddr : RtuAddr) (portMask dynamic now : Word)
    (s : RtuState) : RtuState :=
  hwRequest .write eaddr (eaddr.hash, eaddr.bucket) (setEntry eaddr.hash eaddr.bucket
    { s.rtuHtab eaddr.hash eaddr.bucket with
      addr := eaddr, valid := 1, fid := fid, portMaskDst := portMask, portMaskSrc := 0xFFFFFFFF,
      dynamic := dynamic, lastAccessT := now, mac := mac } s)

/-- `rtu_fd_create_entry`; `now` is what `get_monotonic_sec` returns. -/
def rtuFdCreateEntry (mac : Mac) (vid : BitVec 16) (portMask dynamic : Word)
    (atExistingEntry : Int) (now : Word) (s : RtuState) : Int × RtuState :=
  let s := s.emit (.index .vlanTab vid.toNat)
  if (s.vlanTab vid.toNat).drop = 0 then
    let fid := (s.vlanTab vid.toNat).fid
    match htabSearch s.rtuHtab mac fid with
    | some (i, j) => (0, rtuFdCommit (fdUpdateEntry i j portMask dynamic atExistingEntry now s))
    | none =>
      let hash := rtuHash s.hashPoly mac fid
      let nBuckets := htabCountBuckets s.rtuHtab hash
      if nBuckets = rtuBuckets then (-enomem, s)
      else (0, rtuFdCommit (fdInsertEntry mac fid ⟨hash, nBuckets⟩ portMask dynamic now s))
  else (0, rtuFdCommit s)

/-! ### Removing entries -/

/-- One turn of the scan shared by the three removing operations: queue the removal of
the entry, at the address stored in it, if it is `doomed`. `logged` are the shifts that
the condition of the scan evaluates. -/
def scanSlot (logged : RtuFilteringEntry → List Event) (doomed : RtuFilteringEntry → Bool)
    (s : RtuState) (ij : Nat × Nat) : RtuState :=
  let ent := s.rtuHtab ij.1 ij.2
  let s := s.emitAll (logged ent)
  if doomed ent then hwRequest .remove ent.addr ij s else s

/-- The scan itself, from the last slot to the first. -/
def queueRemovals (logged : RtuFilteringEntry → List Event) (doomed : RtuFilteringEntry → Bool)
    (s : RtuState) : RtuState :=
  slots.reverse.foldl (scanSlot logged doomed) s

def removeCond (mac : Mac) (portMask type : Word) (ent : RtuFilteringEntry) : Bool :=
  decide (ent.valid ≠ 0 ∧ ent.dynamic = type ∧ ent.mac = mac ∧ ent.portMaskDst = portMask)

def rtuFdRemoveEntry (mac : Mac) (portMask type : Word) (s : RtuState) : Int × RtuState :=
  let removedEntries := slots.countP fun ij => removeCond mac portMask type (s.rtuHtab ij.1 ij.2)
  (removedEntries, rtuFdCommit (queueRemovals (fun _ => []) (removeCond mac portMask type) s))

/-- `1 << port`. C leaves a count outside `0..31` undefined; the switch CPU yields `0`. -/
def portBit (port : Int) : Word := if 0 ≤ port ∧ port < 32 then 1 <<< port.toNat else 0

def clearCond (destPort : Int) (type : Word) (ent : RtuFilteringEntry) : Bool :=
  decide (ent.valid ≠ 0 ∧ ent.dynamic = type ∧ ent.portMaskDst = portBit destPort)

def rtuFdClearEntriesForPort (destPort : Int) (type : Word) (s : RtuState) : RtuState :=
  rtuFdCommit (queueRemovals
    (fun ent => if ent.valid ≠ 0 ∧ ent.dynamic = type then [.shift destPort] else [])
    (clearCond destPort type) s)

/-! ### Aging -/

/-- The bits of the aging bitmap in the order of the nested loops over words and bits. -/
def agingBits : List (Nat × Nat) :=
  (List.range (rtuEntries / 32)).flatMap fun i => (List.range 32).map fun j => (i, j)

/-- What `rtu_fd_age_update` does to an entry whose bit is set. -/
def ageTouch (t : Word) (ent : RtuFilteringEntry) : RtuFilteringEntry :=
  if ent.dynamic = rtuEntryTypeStatic then ent
  else { ent with age := t - ent.lastAccessT, lastAccessT := t }

/-- One turn of the loops of `rtu_fd_age_update`. -/
def ageUpdateBit (bitmap : Nat → Word) (t : Word) (s : RtuState) (ij : Nat × Nat) : RtuState :=
  if (bitmap ij.1).getLsbD ij.2 then
    let bitCnt := (ij.1 <<< 5) ||| ij.2
    let hash := bitCnt >>> 2
    let bucket := bitCnt &&& 0x03
    setEntry hash bucket (ageTouch t (s.rtuHtab hash bucket)) s
  else s

def rtuFdAgeUpdate (bitmap : Nat → Word) (t : Word) (s : RtuState) : RtuState :=
  agingBits.foldl (ageUpdateBit bitmap t) (rtuReadAgingBitmap s)

/-- `time_after` on a 32-bit `long` -/
def timeAfter (a b : Word) : Bool := (b - a).slt 0

def ageOutCond (t : Word) (ent : RtuFilteringEntry) : Bool :=
  decide (ent.valid ≠ 0 ∧ ent.dynamic = rtuEntryTypeDynamic ∧
    (timeAfter t ent.lastAccessT = true ∨ ent.forceRemove ≠ 0))

def rtuFdAgeOut (now : Word) (s : RtuState) : RtuState :=
  rtuFdCommit (queueRemovals (fun _ => []) (ageOutCond (now - s.agingTime)) s)

/-- `rtu_fd_flush`; the bitmap is what the aging RAM holds, the two clock values are
what the two calls of `get_monotonic_sec` return. -/
def rtuFdFlush (bitmap : Nat → Word) (t₁ t₂ : Word) (s : RtuState) : RtuState :=
  rtuFdAgeOut t₂ (rtuFdAgeUpdate bitmap t₁ s)

/-! ### Initialisation and runs -/

def cleanFd (s : RtuState) : RtuState := rtuCleanHtab { s with rtuHtab := fun _ _ => .zero }

/-- The operations of the daemon on the filtering database. -/
inductive FdOp
  | create (mac : Mac) (vid : BitVec 16) (portMask dynamic : Word) (atExistingEntry : Int) (now : Word)
  | remove (mac : Mac) (portMask type : Word)
  | clear (destPort : Int) (type : Word)
  | flush (bitmap : Nat → Word) (t₁ t₂ : Word)

def fdStep (s : RtuState) : FdOp → RtuState
  | .create mac vid portMask dynamic atExistingEntry now =>
    (rtuFdCreateEntry mac vid portMask dynamic atExistingEntry now s).2
  | .remove mac portMask type => (rtuFdRemoveEntry mac portMask type s).2
  | .clear destPort type => rtuFdClearEntriesForPort destPort type s
  | .flush bitmap t₁ t₂ => rtuFdFlush bitmap t₁ t₂ s

/-- The memory a first start leaves on an 18-port switch: an empty table, the CRC-CCITT
polynomial, and VID 0 as the only registered VLAN. -/
def firstStart : SwState where
  rtuHtab := fun _ _ => .zero
  vlanTab := fun vid =>
    if vid = 0 then ⟨0xFFFFFFFF, 0, 0, 0, 0, 0, (0, 0)⟩ else ⟨0, 0, 0, 0, 0, 1, (0, 0)⟩
  mirrorCfg := ⟨0, 0, 0, 0⟩
  portsCfg := fun hwIndex => ⟨if hwIndex < 18 then 3 else 0, 0, 0, 0, 0, ⟨0, 0, 0, 0, 0, 0⟩⟩
  hwReqList := []
  agingTime := 300
  hashPoly := rtuHashSetPoly 0x1021
  halNportsLocal := ⟨18, by decide⟩

def firstStartState : RtuState where
  toSwState := firstStart
  fpga := ⟨false, 0, fun _ => 0, 0, 0, fun _ => 0, 0, fun _ => (0, 0), 0, 0, fun _ => 0,
    fun _ => 0, fun _ _ => 0⟩
  trace := []

end WrSwitch.Rtu
