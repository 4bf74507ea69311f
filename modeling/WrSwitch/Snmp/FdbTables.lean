import Mathlib.Data.List.Perm.Basic
import WrSwitch.Libwr.PortBitmap
import WrSwitch.Machine.Keyed
import WrSwitch.Rtu.RepInvariant

/-!
# The filtering database in the bridge MIBs

`shmem_rtu_read_htab` of `snmp_shmem.c` and the loaders of `dot1qTpFdbTable`, `dot1dTpFdbTable` and
`dot1dStaticTable`. A loader is given by the rows that it hands to `CONTAINER_INSERT`; memory does
not run out.
-/
namespace WrSwitch.Snmp

open Rtu

/-! ### Reading the table -/

/-- The buckets of the shared hash table one after another. -/
def sharedTable (t : Htab) : List RtuFilteringEntry := slots.map fun slot => t slot.1 slot.2

/-- One turn of the loop that moves the valid entries to the front. -/
def keepValid (s : List RtuFilteringEntry × Nat) (ii : Nat) : List RtuFilteringEntry × Nat :=
  let (tab, empty) := s
  if (tab.getD ii .zero).valid ≠ 0 then (tab.set empty (tab.getD ii .zero), empty + 1)
  else (tab, empty)

/-- `shmem_rtu_read_htab` after a consistent read: the table and `read_entries`. -/
def shmemRtuReadHtab (tab : List RtuFilteringEntry) : List RtuFilteringEntry × Nat :=
  (List.range tab.length).foldl keepValid (tab, 0)

def memcmp : List Byte → List Byte → Int
  | a :: as, b :: bs => if a = b then memcmp as bs else (a.toNat : Int) - b.toNat
  | _, _ => 0

def macBytes (mac : Mac) : List Byte := [mac.b0, mac.b1, mac.b2, mac.b3, mac.b4, mac.b5]

/-- `cmp_rtu_entries_mac` -/
def cmpRtuEntriesMac (e1 e2 : RtuFilteringEntry) : Int := memcmp (macBytes e1.mac) (macBytes e2.mac)

/-- `cmp_rtu_entries_fid_mac` -/
def cmpRtuEntriesFidMac (e1 e2 : RtuFilteringEntry) : Int :=
  if e2.fid < e1.fid then 1
  else if e1.fid < e2.fid then -1
  else memcmp (macBytes e1.mac) (macBytes e2.mac)

/-- The entries that a loader goes through, sorted. -/
def sortedEntries (cmp : RtuFilteringEntry → RtuFilteringEntry → Int)
    (tab : List RtuFilteringEntry) : List RtuFilteringEntry :=
  let (tab, read) := shmemRtuReadHtab tab
  (tab.take read).mergeSort fun e1 e2 => cmp e1 e2 ≤ 0

/-! ### Masks -/

/-- The loop of `bitCount`, at most `n` turns. -/
def bitCountLoop : Nat → Word → Nat
  | 0, _ => 0
  | n + 1, value =>
    if 0 < value then (if value &&& 1 = 1 then 1 else 0) + bitCountLoop n (value >>> 1) else 0

/-- `bitCount`. After 32 turns nothing is left of the value. -/
def bitCount (value : Word) : Nat := bitCountLoop 32 value

/-- The loop that looks for the port of a mask, at most `n` turns. -/
def portLoop : Nat → Nat → Word → Nat
  | 0, port, _ => port
  | n + 1, port, portMask => if 1 < portMask then portLoop n (port + 1) (portMask >>> 1) else port

def portOfMask (portMask : Word) : Nat := portLoop 32 1 portMask

/-- `1 << hal_nports_local` -/
def cpuMask (nports : Nat) : Word := (1 : Word) <<< nports

/-- `RTU_PMASK_MAX` -/
def rtuPmaskMax (nports : Nat) : Word := (1 : Word) <<< nports - 1

/-! ### The tables of learned addresses -/

/-- `build_oid_noalloc` for the components of an index and a buffer with room for some. -/
abbrev BuildOid := List Nat → Nat → Bool

def macOid (mac : Mac) : List Nat := (macBytes mac).map BitVec.toNat

/-- A row of a table of learned addresses. -/
structure TpFdbRow (κ : Type) where
  index : κ
  port : Nat
  status : Nat
  deriving DecidableEq

/-- `dot1qTpFdbStatus_map` and `dot1dTpFdbStatus_map` -/
def tpFdbStatusMap (raw : Word) : Nat :=
  if raw = rtuEntryTypeDynamic then 3 else if raw = rtuEntryTypeStatic then 5 else 1

/-- The row of an entry, if it has one. -/
def tpFdbRow {κ : Type} (nports : Nat) (index : RtuFilteringEntry → κ)
    (indexesSet : RtuFilteringEntry → Bool) (e : RtuFilteringEntry) : Option (TpFdbRow κ) :=
  if e.valid = 0 then none
  -- no ports assigned or multicast
  else if bitCount e.portMaskDst ≠ 1 then none
  else if e.portMaskDst = cpuMask nports then none
  else if ¬ indexesSet e then none
  else some ⟨index e, portOfMask e.portMaskDst, tpFdbStatusMap e.dynamic⟩

/-- `dot1qTpFdbTable_container_load` -/
def dot1qTpFdbTableContainerLoad (buildOid : BuildOid) (nports : Nat)
    (tab : List RtuFilteringEntry) : List (TpFdbRow (Byte × Mac)) :=
  (sortedEntries cmpRtuEntriesFidMac tab).filterMap <| tpFdbRow nports (fun e => (e.fid, e.mac))
    fun e => buildOid (e.fid.toNat :: macOid e.mac) 7

/-- `dot1dTpFdbTable_container_load` -/
def dot1dTpFdbTableContainerLoad (buildOid : BuildOid) (nports : Nat)
    (tab : List RtuFilteringEntry) : List (TpFdbRow Mac) :=
  (sortedEntries cmpRtuEntriesMac tab).filterMap <| tpFdbRow nports (fun e => e.mac)
    fun e => buildOid (macOid e.mac) 6

/-! ### The table of static addresses -/

structure StaticRow where
  address : Mac
  receivePort : Nat
  allowedToGoTo : Machine.Writes Nat (BitVec 8) × Nat
  status : Nat

/-- `dot1dStaticStatus_map` -/
def dot1dStaticStatusMap (raw : Word) : Nat := if raw = rtuEntryTypeStatic then 3 else 1

/-- The row of an entry for a port. The buffer of a new row is zeroed. -/
def staticRow (nports : Nat) (e : RtuFilteringEntry) (receivePort : Nat) : StaticRow where
  address := e.mac
  receivePort := receivePort
  allowedToGoTo := Libwr.convertPortmaskToSnmpBitmask nports
    (e.portMaskDst &&& rtuPmaskMax nports) fun _ => 0
  status := dot1dStaticStatusMap e.dynamic

/-- The inner loop: skips ports not in the mask. -/
def skipPorts : Nat → Nat → Word → Option (Nat × Word)
  | 0, _, _ => none
  | turns + 1, port, portMask =>
    if portMask &&& 1 = 0 ∧ portMask ≠ 0 then skipPorts turns (port + 1) (portMask >>> 1)
    else some (port, portMask)

/-- The outer loop: the ports for which rows are inserted. -/
def receiveLoop (limit : Nat) (indexesSet : Nat → Bool) : Nat → Nat → Word → Option (List Nat)
  | 0, _, _ => none
  | turns + 1, port, portMask => do
    let (port, portMask) ← if port ≠ 0 then skipPorts limit port portMask else some (port, portMask)
    if port ≠ 0 ∧ portMask = 0 then some []
    -- `continue`, which does not leave the loop
    else if ¬ indexesSet port then receiveLoop limit indexesSet turns port portMask
    else if port = 0 then some [0]
    else (port :: ·) <$> receiveLoop limit indexesSet turns (port + 1) (portMask >>> 1)

/-- The rows of an entry, for at most so many turns of each loop. -/
def staticRows (buildOid : BuildOid) (turns nports : Nat) (e : RtuFilteringEntry) :
    Option (List StaticRow) :=
  if e.valid = 0 then some []
  else if e.portMaskDst = cpuMask nports then some []
  else if e.dynamic ≠ rtuEntryTypeStatic then some []
  else
    let all := e.portMaskSrc &&& rtuPmaskMax nports = rtuPmaskMax nports
    let port := if all then 0 else 1
    let portMask := if all then rtuPmaskMax nports else e.portMaskSrc &&& rtuPmaskMax nports
    (receiveLoop turns (fun port => buildOid (macOid e.mac ++ [port]) 7) turns port portMask).map
      (List.map (staticRow nports e))

/-- `dot1dStaticTable_container_load` -/
def dot1dStaticTableContainerLoad (buildOid : BuildOid) (turns nports : Nat)
    (tab : List RtuFilteringEntry) : Option (List StaticRow) :=
  ((sortedEntries cmpRtuEntriesFidMac tab).mapM (staticRows buildOid turns nports)).map
    List.flatten

end WrSwitch.Snmp
