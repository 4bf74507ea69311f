import WrSwitch.Rtu.Hash

/-!
# The register driver

`rtu_drv.c`: every function issues its register accesses one after the other.
`RtuState.emit` records an access and applies it to the registers.
-/
namespace WrSwitch.Rtu

/-! ### Register fields of `rtu-regs.h` and `endpoint-regs.h` -/

/-- `WBGEN2_GEN_MASK`; a 32-bit wide field shifts `1` out of the word, which leaves all ones. -/
def wbgen2GenMask (offset size : Nat) : Word := (((1 : Word) <<< size) - 1) <<< offset

def wbgen2GenWrite (value : Word) (offset size : Nat) : Word :=
  (value &&& (((1 : Word) <<< size) - 1)) <<< offset

def wbgen2GenRead (reg : Word) (offset size : Nat) : Word :=
  (reg >>> offset) &&& (((1 : Word) <<< size) - 1)

def rtuGcrMfifotrig : Word := wbgen2GenMask 1 1
def rtuMfifoR0AdSel : Word := wbgen2GenMask 0 1
def rtuMfifoR0DataSel : Word := 0

def rtuPsrPortSelMask : Word := wbgen2GenMask 0 8
def rtuPsrPortSelW (value : Word) : Word := wbgen2GenWrite value 0 8
def rtuPsrNPortsR (reg : Word) : Word := wbgen2GenRead reg 8 8

def rtuPcrLearnEn : Word := wbgen2GenMask 0 1
def rtuPcrBUnrec : Word := wbgen2GenMask 7 1

def rtuVtr1VidMask : Word := wbgen2GenMask 0 12
def rtuVtr1VidW (value : Word) : Word := wbgen2GenWrite value 0 12
def rtuVtr1FidW (value : Word) : Word := wbgen2GenWrite value 12 8
def rtuVtr1Drop : Word := wbgen2GenMask 20 1
def rtuVtr1HasPrio : Word := wbgen2GenMask 21 1
def rtuVtr1PrioOverride : Word := wbgen2GenMask 22 1
def rtuVtr1PrioW (value : Word) : Word := wbgen2GenWrite value 23 3
def rtuVtr1Update : Word := wbgen2GenMask 26 1

def rtuRxCtrMrEna : Word := wbgen2GenMask 5 1
def rtuRxMpR0DstSrc : Word := wbgen2GenMask 0 1
def rtuRxMpR0RxTx : Word := wbgen2GenMask 1 1
def rtuRxMpR1MaskW (value : Word) : Word := wbgen2GenWrite value 0 32

def epVcr0QmodeMask : Word := wbgen2GenMask 0 2
def epVcr0QmodeW (value : Word) : Word := wbgen2GenWrite value 0 2
def epVcr0FixPrio : Word := wbgen2GenMask 2 1
def epVcr0PrioValMask : Word := wbgen2GenMask 4 3
def epVcr0PrioValW (value : Word) : Word := wbgen2GenWrite value 4 3
def epVcr0PvidMask : Word := wbgen2GenMask 16 12
def epVcr0PvidW (value : Word) : Word := wbgen2GenWrite value 16 12

/-! ### Issuing accesses -/

/-- The effect of an access on the registers. The MFIFO keeps a current address:
a word with `AD_SEL` replaces it, a word without is stored there and increments it. -/
def Fpga.apply (f : Fpga) : Event → Fpga
  | .wr .mfifoR0 v => { f with mfifoAdSel := decide (v &&& rtuMfifoR0AdSel ≠ 0) }
  | .wr .mfifoR1 v =>
    if f.mfifoAdSel then { f with mfifoAddr := v.toNat }
    else { f with zbt := Function.update f.zbt f.mfifoAddr v, mfifoAddr := f.mfifoAddr + 1 }
  | .wr .gcr v => { f with gcr := v }
  | .wr .psr v => { f with psr := (f.psr &&& ~~~rtuPsrPortSelMask) ||| (v &&& rtuPsrPortSelMask) }
  | .wr .pcr v => { f with pcr := Function.update f.pcr (f.psr &&& rtuPsrPortSelMask) v }
  | .wr .vtr2 v => { f with vtr2 := v }
  | .wr .vtr1 v =>
    if v &&& rtuVtr1Update ≠ 0 then
      { f with vlan := Function.update f.vlan (v &&& rtuVtr1VidMask) (v, f.vtr2) }
    else f
  | .wr .rxCtr v => { f with rxCtr := v }
  | .wr .rxMpR0 v => { f with rxMpR0 := v }
  | .wr .rxMpR1 v => { f with rxMpMask := Function.update f.rxMpMask f.rxMpR0 v }
  | .wr (.aram _) _ => f
  | .epWr ep .vcr0 v => { f with vcr0 := Function.update f.vcr0 ep v }
  | .epWr ep .vcr1 v =>
    let bitmap := Function.update (f.vcr1 ep) (wbgen2GenRead v 0 10) (wbgen2GenRead v 10 18)
    { f with vcr1 := Function.update f.vcr1 ep bitmap }
  | .rdGcr | .trigGcr | .pollGcr | .index _ _ | .shift _ => f

def RtuState.emit (s : RtuState) (e : Event) : RtuState :=
  { s with fpga := s.fpga.apply e, trace := s.trace ++ [e] }

@[simp] theorem emit_toSwState (s : RtuState) (e : Event) : (s.emit e).toSwState = s.toSwState := rfl

def RtuState.emitAll (s : RtuState) (es : List Event) : RtuState := es.foldl RtuState.emit s

@[simp] theorem emitAll_nil (s : RtuState) : s.emitAll [] = s := rfl

/-- Two logs, one after the other. -/
theorem emitAll_append (s : RtuState) (es fs : List Event) :
    s.emitAll (es ++ fs) = (s.emitAll es).emitAll fs := List.foldl_append

/-- A log changes the hardware only. -/
theorem emitAll_eq (s : RtuState) (es : List Event) :
    s.emitAll es = { s with fpga := es.foldl Fpga.apply s.fpga, trace := s.trace ++ es } := by
  induction es generalizing s with
  | nil => simp
  | cons e es ih =>
    change (s.emit e).emitAll es = _
    rw [ih]
    simp [RtuState.emit]

@[simp] theorem emitAll_toSwState (s : RtuState) (es : List Event) :
    (s.emitAll es).toSwState = s.toSwState := by rw [emitAll_eq]

@[simp] theorem emitAll_fpga (s : RtuState) (es : List Event) :
    (s.emitAll es).fpga = es.foldl Fpga.apply s.fpga := by rw [emitAll_eq]

@[simp] theorem emitAll_trace (s : RtuState) (es : List Event) :
    (s.emitAll es).trace = s.trace ++ es := by rw [emitAll_eq]

/-- A loop whose turns only issue accesses, chosen from the memory and the loop
variable, issues them all, turn after turn. -/
theorem foldl_emitAll_of {β : Type} (body : RtuState → β → RtuState)
    (events : SwState → β → List Event)
    (turn : ∀ s b, body s b = s.emitAll (events s.toSwState b)) (s : RtuState) (bs : List β) :
    bs.foldl body s = s.emitAll (bs.flatMap (events s.toSwState)) := by
  induction bs generalizing s with
  | nil => rfl
  | cons b bs ih =>
    rw [List.foldl_cons, ih, turn, emitAll_toSwState, List.flatMap_cons, emitAll_append]

private theorem foldl_emitAll {β : Type} (body : RtuState → β → RtuState) (events : β → List Event)
    (turn : ∀ s b, body s b = s.emitAll (events b)) (s : RtuState) (bs : List β) :
    bs.foldl body s = s.emitAll (bs.flatMap events) :=
  foldl_emitAll_of body (fun _ => events) turn s bs

def rtuWr (reg : RtuReg) (val : Word) (s : RtuState) : RtuState := s.emit (.wr reg val)

/-- Read of the port control register behind the selected port. -/
def rtuRdPcr (s : RtuState) : Word := s.fpga.pcr (s.fpga.psr &&& rtuPsrPortSelMask)

def epWrite (ep : Nat) (reg : EpReg) (value : Word) (s : RtuState) : RtuState :=
  s.emit (.epWr ep reg value)

/-! ### Main hash table -/

def writeMfifoAddr (zbtAddr : Word) (s : RtuState) : RtuState :=
  rtuWr .mfifoR1 zbtAddr (rtuWr .mfifoR0 rtuMfifoR0AdSel s)

def writeMfifoData (word : Word) (s : RtuState) : RtuState :=
  rtuWr .mfifoR1 word (rtuWr .mfifoR0 rtuMfifoR0DataSel s)

/-- `flush_mfifo`: read, trigger, poll. How long the poll loop stays is decided
where the accesses meet the hardware. -/
def flushMfifo (s : RtuState) : RtuState := ((s.emit .rdGcr).emit .trigGcr).emit .pollGcr

def macEntryWord0W (ent : RtuFilteringEntry) : Word :=
  ((0xFF &&& ent.mac.b0.setWidth 32) <<< 24) |||
  ((0xFF &&& ent.mac.b1.setWidth 32) <<< 16) |||
  ((0xFF &&& ent.fid.setWidth 32) <<< 4) |||
  ((0x1 &&& ent.isBpdu) <<< 2) |||
  ((0x1 &&& ent.endOfBucket) <<< 1) ||| (0x1 &&& ent.valid)

def macEntryWord1W (ent : RtuFilteringEntry) : Word :=
  ((0xFF &&& ent.mac.b2.setWidth 32) <<< 24) |||
  ((0xFF &&& ent.mac.b3.setWidth 32) <<< 16) |||
  ((0xFF &&& ent.mac.b4.setWidth 32) <<< 8) ||| (0xFF &&& ent.mac.b5.setWidth 32)

def macEntryWord2W (ent : RtuFilteringEntry) : Word :=
  ((0x1 &&& ent.dropWhenDest) <<< 28) |||
  ((0x1 &&& ent.prioOverrideDst) <<< 27) |||
  ((0x7 &&& ent.prioDst.setWidth 32) <<< 24) |||
  ((0x1 &&& ent.hasPrioDst) <<< 23) |||
  ((0x1 &&& ent.dropUnmatchedSrcPorts) <<< 22) |||
  ((0x1 &&& ent.dropWhenSource) <<< 21) |||
  ((0x1 &&& ent.prioOverrideSrc) <<< 20) |||
  ((0x7 &&& ent.prioSrc.setWidth 32) <<< 17) ||| ((0x1 &&& ent.hasPrioSrc) <<< 16)

def macEntryWord3W (ent : RtuFilteringEntry) : Word :=
  ((0xFFFF &&& ent.portMaskDst) <<< 16) ||| (0xFFFF &&& ent.portMaskSrc)

def macEntryWord4W (ent : RtuFilteringEntry) : Word :=
  (((0xFFFF : Word) &&& (ent.portMaskDst >>> 16)) <<< 16) |||
    ((0xFFFF : Word) &&& (ent.portMaskSrc >>> 16))

/-- The five words of an entry in the order they are written. -/
def macEntryWords (ent : RtuFilteringEntry) : List Word :=
  [macEntryWord0W ent, macEntryWord1W ent, macEntryWord2W ent, macEntryWord3W ent,
    macEntryWord4W ent]

def writeMfifoEvents (sel val : Word) : List Event := [.wr .mfifoR0 sel, .wr .mfifoR1 val]

def flushEvents : List Event := [.rdGcr, .trigGcr, .pollGcr]

/-- The accesses of one burst: an address, data words, and the flush if asked for. -/
def burstEvents (zbtAddr : Nat) (words : List Word) (flush : Bool) : List Event :=
  writeMfifoEvents rtuMfifoR0AdSel (BitVec.ofNat 32 zbtAddr) ++
    words.flatMap (writeMfifoEvents rtuMfifoR0DataSel) ++ (if flush then flushEvents else [])

def rtuWriteHtabEntry (zbtAddr : Nat) (ent : RtuFilteringEntry) (flush : Bool)
    (s : RtuState) : RtuState :=
  let s := writeMfifoAddr (BitVec.ofNat 32 zbtAddr) s
  let s := (macEntryWords ent).foldl (fun s word => writeMfifoData word s) s
  if flush then flushMfifo s else s

/-- One turn of the loop of `rtu_clean_htab`. -/
def rtuCleanHtabEntry (addr : Nat) (s : RtuState) : RtuState :=
  let s := writeMfifoAddr (BitVec.ofNat 32 (addr * 8)) s
  let s := [0, 0, 0, 0, 0].foldl (fun s word => writeMfifoData word s) s
  flushMfifo s

private theorem writeMfifoAddr_eq (zbtAddr : Word) (s : RtuState) :
    writeMfifoAddr zbtAddr s = s.emitAll (writeMfifoEvents rtuMfifoR0AdSel zbtAddr) := rfl

private theorem writeMfifoData_eq (word : Word) (s : RtuState) :
    writeMfifoData word s = s.emitAll (writeMfifoEvents rtuMfifoR0DataSel word) := rfl

private theorem flushMfifo_eq (s : RtuState) : flushMfifo s = s.emitAll flushEvents := rfl

private theorem writeWords_eq (words : List Word) (s : RtuState) :
    words.foldl (fun s word => writeMfifoData word s) s =
      s.emitAll (words.flatMap (writeMfifoEvents rtuMfifoR0DataSel)) :=
  foldl_emitAll (fun s word => writeMfifoData word s) (writeMfifoEvents rtuMfifoR0DataSel)
    (fun s word => writeMfifoData_eq word s) s words

/-- An entry is written in one burst. -/
theorem rtuWriteHtabEntry_eq (zbtAddr : Nat) (ent : RtuFilteringEntry) (flush : Bool)
    (s : RtuState) :
    rtuWriteHtabEntry zbtAddr ent flush s =
      s.emitAll (burstEvents zbtAddr (macEntryWords ent) flush) := by
  unfold rtuWriteHtabEntry burstEvents
  dsimp only
  rw [writeWords_eq, writeMfifoAddr_eq, emitAll_append, emitAll_append]
  cases flush with
  | false => rw [if_neg Bool.false_ne_true, if_neg Bool.false_ne_true, emitAll_nil]
  | true => rw [if_pos rfl, if_pos rfl, flushMfifo_eq]

private theorem rtuCleanHtabEntry_eq (addr : Nat) (s : RtuState) :
    rtuCleanHtabEntry addr s = s.emitAll (burstEvents (addr * 8) [0, 0, 0, 0, 0] true) := by
  unfold rtuCleanHtabEntry burstEvents
  dsimp only
  rw [writeWords_eq, writeMfifoAddr_eq, flushMfifo_eq, emitAll_append, emitAll_append, if_pos rfl]

def rtuCleanHtab (s : RtuState) : RtuState :=
  (List.range rtuEntries).foldl (fun s addr => rtuCleanHtabEntry addr s) s

/-- Every entry is written with zeros. -/
theorem rtuCleanHtab_eq (s : RtuState) :
    rtuCleanHtab s = s.emitAll ((List.range rtuEntries).flatMap fun addr =>
      burstEvents (addr * 8) [0, 0, 0, 0, 0] true) :=
  foldl_emitAll (fun s addr => rtuCleanHtabEntry addr s)
    (fun addr => burstEvents (addr * 8) [0, 0, 0, 0, 0] true)
    (fun s addr => rtuCleanHtabEntry_eq addr s) s (List.range rtuEntries)

/-! ### Aging bitmap -/

/-- `rtu_read_aging_bitmap` clears each word it has read; the words themselves are
what the hardware happens to hold, so the caller supplies them. -/
def rtuReadAgingBitmap (s : RtuState) : RtuState :=
  (List.range (rtuEntries / 32)).foldl (fun s i => rtuWr (.aram i) 0 s) s

/-- Every word of the bitmap is cleared when it was read. -/
theorem rtuReadAgingBitmap_eq (s : RtuState) :
    rtuReadAgingBitmap s =
      s.emitAll ((List.range (rtuEntries / 32)).flatMap fun i => [.wr (.aram i) 0]) :=
  foldl_emitAll (fun s i => rtuWr (.aram i) 0 s) (fun i => [.wr (.aram i) 0])
    (fun _ _ => rfl) s (List.range (rtuEntries / 32))

/-! ### VLAN table -/

def rtuWriteVlanEntry (vid : Int) (ent : RtuVlanTableEntry) (s : RtuState) : RtuState :=
  let vtr1 := rtuVtr1Update ||| rtuVtr1VidW (BitVec.ofInt 32 vid)
    ||| (if ent.drop ≠ 0 then rtuVtr1Drop else 0)
    ||| (if ent.prioOverride ≠ 0 then rtuVtr1PrioOverride else 0)
    ||| (if ent.hasPrio ≠ 0 then rtuVtr1HasPrio else 0)
    ||| rtuVtr1PrioW (ent.prio.setWidth 32)
    ||| rtuVtr1FidW (ent.fid.setWidth 32)
  rtuWr .vtr1 vtr1 (rtuWr .vtr2 ent.portMask s)

/-! ### Port settings -/

def minPort : Int := 0
def maxPort : Int := 17
def einval : Int := 22

def writePcr (port : Int) (pcr : Word) (s : RtuState) : RtuState :=
  rtuWr .pcr pcr (rtuWr .psr (rtuPsrPortSelW (BitVec.ofInt 32 port)) s)

def readPcr (port : Int) (s : RtuState) : Word × RtuState :=
  let s := rtuWr .psr (rtuPsrPortSelW (BitVec.ofInt 32 port)) s
  (rtuRdPcr s, s)

/-- The common body of the setters of one flag of the port control register. -/
def setPcrFlagOnPort (bit : Word) (port : Int) (flag : Word) (s : RtuState) : Int × RtuState :=
  if port < minPort ∨ port > maxPort then (-einval, s)
  else
    let (pcr, s) := readPcr port s
    let pcr := if flag ≠ 0 then bit ||| pcr else ~~~bit &&& pcr
    (0, writePcr port pcr s)

/-- The common body of the getters of one flag of the port control register. -/
def readPcrFlagOnPort (bit : Word) (port : Int) (s : RtuState) : Int × RtuState :=
  if port < minPort ∨ port > maxPort then (-einval, s)
  else
    let (pcr, s) := readPcr port s
    (if pcr &&& bit ≠ 0 then 1 else 0, s)

def rtuLearnEnableOnPort : Int → Word → RtuState → Int × RtuState := setPcrFlagOnPort rtuPcrLearnEn

def rtuLearnReadOnPort : Int → RtuState → Int × RtuState := readPcrFlagOnPort rtuPcrLearnEn

def rtuSetUnrecognisedBehaviourOnPort : Int → Word → RtuState → Int × RtuState :=
  setPcrFlagOnPort rtuPcrBUnrec

def rtuReadUnrecognisedBehaviourOnPort : Int → RtuState → Int × RtuState :=
  readPcrFlagOnPort rtuPcrBUnrec

/-! ### Mirroring -/

def rtuEnableMirroring (ena : Word) (s : RtuState) : RtuState :=
  let ctr := s.fpga.rxCtr
  let ctr := if ena = 1 then ctr ||| rtuRxCtrMrEna else ctr &&& ~~~rtuRxCtrMrEna
  rtuWr .rxCtr ctr s

/-- Write of one mirroring mask. `RTU_RX_MP_R1_MASK_W` expands to a shift of `1` by 32. -/
def writeMirrorMask (select mask : Word) (s : RtuState) : RtuState :=
  rtuWr .rxMpR1 (rtuRxMpR1MaskW mask) ((rtuWr .rxMpR0 select s).emit (.shift 32))

def rtuCfgMirroring (cfg : RtuMirrorInfo) (s : RtuState) : RtuState :=
  let s := if cfg.en = 0 ∨ cfg.dmask ≠ 0 then writeMirrorMask 0 cfg.dmask s else s
  let s := if cfg.en = 0 ∨ cfg.imask ≠ 0 then writeMirrorMask rtuRxMpR0DstSrc cfg.imask s else s
  if cfg.en = 0 ∨ cfg.emask ≠ 0 then
    writeMirrorMask (rtuRxMpR0DstSrc ||| rtuRxMpR0RxTx) cfg.emask s
  else s

/-! ### Port configuration -/

def validQmode : Byte := 1 <<< 0
def validPrio : Byte := 1 <<< 1
def validVid : Byte := 1 <<< 2
def validUntag : Byte := 1 <<< 4

/-- `rtu_write_port_cfg_hw`; its accesses to `ports_cfg` and to the endpoint all use `hw_index`. -/
def rtuWritePortCfgHw (hwIndex : Byte) (s : RtuState) : RtuState :=
  let s := s.emit (.index .portsCfg hwIndex.toNat)
  let s := s.emit (.index .endpoint hwIndex.toNat)
  let cfg := s.portsCfg hwIndex.toNat
  let v := s.fpga.vcr0 hwIndex.toNat
  let v := (v &&& ~~~epVcr0QmodeMask) ||| epVcr0QmodeW (cfg.qmode.setWidth 32)
  let v := if cfg.fixPrio ≠ 0 then v ||| epVcr0FixPrio else v &&& ~~~epVcr0FixPrio
  let v := (v &&& ~~~epVcr0PrioValMask) ||| epVcr0PrioValW (cfg.prio.setWidth 32)
  let v := (v &&& ~~~epVcr0PvidMask) ||| epVcr0PvidW (cfg.pvid.setWidth 32)
  let s := epWrite hwIndex.toNat .vcr0 v s
  (List.range (4096 / 16)).foldl (fun s i =>
    if cfg.untag ≠ 0 then epWrite hwIndex.toNat .vcr1 ((0xffff <<< 10) ||| BitVec.ofNat 32 i) s
    else epWrite hwIndex.toNat .vcr1 ((0x0000 <<< 10) ||| BitVec.ofNat 32 i) s) s

def rtuWritePortConfig (hwIndex validMask qmode fixPrio prio : Byte) (pvid : BitVec 16)
    (untag : Byte) (s : RtuState) : RtuState :=
  let s := s.emit (.index .portsCfg hwIndex.toNat)
  let cfg := s.portsCfg hwIndex.toNat
  let cfg := if validMask &&& validQmode ≠ 0 then { cfg with qmode := qmode } else cfg
  let cfg := if validMask &&& validPrio ≠ 0 then { cfg with fixPrio := fixPrio, prio := prio }
    else cfg
  let cfg := if validMask &&& validVid ≠ 0 then { cfg with pvid := pvid } else cfg
  let cfg := if validMask &&& validUntag ≠ 0 then { cfg with untag := untag } else cfg
  rtuWritePortCfgHw hwIndex { s with portsCfg := Function.update s.portsCfg hwIndex.toNat cfg }

end WrSwitch.Rtu
