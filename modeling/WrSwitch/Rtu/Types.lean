import WrSwitch.Machine.Run
import Mathlib.Data.Nat.Bitwise

/-!
# Data model of the routing table unit daemon

The structures of `rtu_shmem.h` as far as `wrsw_rtud` reads or writes them, the
private structures of `rtu_fd.c`, and the state of the daemon together with the
registers it drives.
-/
namespace WrSwitch.Rtu

abbrev Byte := BitVec 8
abbrev Word := BitVec 32

/-! ### Constants of `rtu_shmem.h`, `rtu.h` and `rtu_fd.h` -/

def rtuEntries : Nat := 2048
def rtuBuckets : Nat := 4
def htabEntries : Nat := rtuEntries / rtuBuckets
def numVlans : Int := 4096
/-- `HAL_MAX_PORTS` of `hal_exports.h`. -/
def halMaxPorts : Int := 32

@[simp] theorem rtuBuckets_eq : rtuBuckets = 4 := rfl
@[simp] theorem htabEntries_eq : htabEntries = 512 := rfl

def rtuEntryTypeDynamic : Word := 1
def rtuEntryTypeStatic : Word := 0

/-- `rtu_check_type` -/
def rtuCheckType (type : Word) : Int :=
  if type = rtuEntryTypeDynamic ∨ type = rtuEntryTypeStatic then 0 else -1

def overrideExisting : Int := 0
def addToExisting : Int := 1
def overrideExistingDynamic : Int := 2

def enomem : Int := 12

/-! ### Structures -/

/-- A MAC address, `uint8_t mac[ETH_ALEN]`. -/
structure Mac where
  b0 : Byte
  b1 : Byte
  b2 : Byte
  b3 : Byte
  b4 : Byte
  b5 : Byte
deriving DecidableEq, Repr

/-- `struct rtu_addr` -/
structure RtuAddr where
  hash : Nat
  bucket : Nat
deriving DecidableEq, Repr

/-- `struct rtu_filtering_entry`; the `int` fields are kept as 32-bit words. -/
structure RtuFilteringEntry where
  addr : RtuAddr
  valid : Word
  endOfBucket : Word
  isBpdu : Word
  mac : Mac
  fid : Byte
  portMaskSrc : Word
  portMaskDst : Word
  dropWhenSource : Word
  dropWhenDest : Word
  dropUnmatchedSrcPorts : Word
  lastAccessT : Word
  forceRemove : Word
  prioSrc : Byte
  hasPrioSrc : Word
  prioOverrideSrc : Word
  prioDst : Byte
  hasPrioDst : Word
  prioOverrideDst : Word
  dynamic : Word
  age : Word
deriving DecidableEq, Repr

/-- The entry `memset` leaves behind. -/
def RtuFilteringEntry.zero : RtuFilteringEntry where
  addr := ⟨0, 0⟩
  valid := 0
  endOfBucket := 0
  isBpdu := 0
  mac := ⟨0, 0, 0, 0, 0, 0⟩
  fid := 0
  portMaskSrc := 0
  portMaskDst := 0
  dropWhenSource := 0
  dropWhenDest := 0
  dropUnmatchedSrcPorts := 0
  lastAccessT := 0
  forceRemove := 0
  prioSrc := 0
  hasPrioSrc := 0
  prioOverrideSrc := 0
  prioDst := 0
  hasPrioDst := 0
  prioOverrideDst := 0
  dynamic := 0
  age := 0

@[simp] theorem zero_valid : RtuFilteringEntry.zero.valid = 0 := rfl

/-- `struct rtu_vlan_table_entry` -/
structure RtuVlanTableEntry where
  portMask : Word
  fid : Byte
  prio : Byte
  hasPrio : Word
  prioOverride : Word
  drop : Word
  /-- `creation_time.tv_sec` and `creation_time.tv_usec` -/
  creationTime : Word × Word
deriving DecidableEq, Repr

/-- `struct rtu_mirror_info` -/
structure RtuMirrorInfo where
  en : Word
  imask : Word
  emask : Word
  dmask : Word
deriving DecidableEq, Repr

/-- `struct rtu_port_entry` -/
structure RtuPortEntry where
  qmode : Byte
  fixPrio : Byte
  prio : Byte
  untag : Byte
  pvid : BitVec 16
  mac : Mac
deriving DecidableEq, Repr

/-- `HW_WRITE_REQ` and `HW_REMOVE_REQ` -/
inductive HwReqType
  | write
  | remove
deriving DecidableEq, Repr

/-- `struct hw_req`. The entry pointer of the handle always points into
`rtu_htab`, so it is kept as the row and the column it points to. -/
structure HwReq where
  type : HwReqType
  addr : RtuAddr
  entryPtr : Nat × Nat
deriving DecidableEq, Repr

/-! ### What the daemon touches outside its own memory -/

/-- The registers of `struct RTU_WB` that the daemon writes. -/
inductive RtuReg
  | gcr | psr | pcr | vtr1 | vtr2 | rxCtr | rxMpR0 | rxMpR1 | mfifoR0 | mfifoR1
  | aram (word : Nat)
deriving DecidableEq, Repr

/-- The endpoint registers that the daemon writes. -/
inductive EpReg
  | vcr0 | vcr1
deriving DecidableEq, Repr

/-- The arrays that are indexed by a value taken from a request. -/
inductive Table
  | vlanTab | portsCfg | endpoint
deriving DecidableEq, Repr

/-- What the daemon does in order: its register accesses, the three accesses of
`flush_mfifo`, and every array index and shift count that is not a constant in range. -/
inductive Event
  | wr (reg : RtuReg) (val : Word)
  | epWr (ep : Nat) (reg : EpReg) (val : Word)
  /-- `gcr = rtu_rd(GCR)` -/
  | rdGcr
  /-- `rtu_wr(GCR, gcr | RTU_GCR_MFIFOTRIG)` -/
  | trigGcr
  /-- the `while` loop that polls `GCR` -/
  | pollGcr
  | index (table : Table) (i : Int)
  | shift (count : Int)
deriving DecidableEq, Repr

/-- The switch registers as the daemon last set them. -/
structure Fpga where
  /-- `AD_SEL` of the last `MFIFO_R0` write, and the address the next data word goes to -/
  mfifoAdSel : Bool
  mfifoAddr : Nat
  zbt : Nat → Word
  gcr : Word
  psr : Word
  pcr : Word → Word
  vtr2 : Word
  /-- per VID, the `VTR1` and `VTR2` words last written -/
  vlan : Word → Word × Word
  rxCtr : Word
  rxMpR0 : Word
  rxMpMask : Word → Word
  vcr0 : Nat → Word
  /-- per endpoint and bitmap offset, the data last written through `VCR1` -/
  vcr1 : Nat → Word → Word

/-- The mirror of the hash table, `rtu_htab[hash][bucket]`. -/
abbrev Htab := Nat → Nat → RtuFilteringEntry

/-- The memory of `wrsw_rtud`: the shared tables and its private variables. `init_shm`
exits when the HAL reports more than `HAL_MAX_PORTS` ports, so `hal_nports_local`
carries that bound. -/
structure SwState where
  rtuHtab : Htab
  vlanTab : Int → RtuVlanTableEntry
  mirrorCfg : RtuMirrorInfo
  portsCfg : Nat → RtuPortEntry
  hwReqList : List HwReq
  agingTime : Word
  hashPoly : Word
  halNportsLocal : { n : Int // n ≤ halMaxPorts }

/-- The daemon together with the registers it drives and the record of what it did. -/
structure RtuState extends SwState where
  fpga : Fpga
  trace : List Event

end WrSwitch.Rtu
