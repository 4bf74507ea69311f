import WrSwitch.Rtu.ExportDescs
import WrSwitch.Rtu.FilterDb
import WrSwitch.MiniRpc.Marshal

/-!
# The remote procedures of the daemon

The `rtudexp_*` functions of `rtud_exports.c`, the operations of `rtu_fd.c` and `rtu_drv.c`
that only they call, and the check of MAC strings in `mac.c`.
-/
namespace WrSwitch.Rtu

open Machine MiniRpc

/-! ### Arguments -/

/-- `args[i]` -/
def argAt (args : Mem) (i : Nat) : Word := loadBits 32 (args.drop (4 * i))

/-- The bytes of integer arguments. -/
def wordArgs (ws : List Word) : Mem := ws.flatMap storeBits

/-- The arguments that a client gave are the ones that are read. -/
theorem argAt_wordArgs (ws : List Word) (i : Nat) (inside : i < ws.length) :
    argAt (wordArgs ws) i = ws[i] := by
  induction ws generalizing i with
  | nil => exact absurd inside (Nat.not_lt_zero i)
  | cons w ws ih =>
    have bytes : (storeBits w).length = 4 := storeBits_length w
    cases i with
    | zero => exact loadBits_storeBits (by decide) w (wordArgs ws)
    | succ i =>
      have next : 4 * (i + 1) = (storeBits w).length + 4 * i := by omega
      rw [argAt, wordArgs, List.flatMap_cons, next, ← List.drop_drop, List.drop_left]
      exact ih i (Nat.lt_of_succ_lt_succ inside)

/-- What the clock and the endpoints tell a handler. -/
structure RtudEnv where
  /-- `get_monotonic_sec` -/
  now : Word
  /-- `tv_sec` and `tv_nsec / 1000` of `clock_gettime` -/
  tv : Word × Word
  /-- the MAC address that the registers of an endpoint hold -/
  epMac : Nat → Mac

/-! ### MAC strings -/

def ethAlenStr : Nat := 18

def hexDigit (n : Nat) : Byte := if n < 10 then BitVec.ofNat 8 (48 + n) else BitVec.ofNat 8 (87 + n)

/-- `%02x` -/
def hexByte (b : Byte) : Mem := [hexDigit (b.toNat / 16), hexDigit (b.toNat % 16)]

/-- `mac_to_buffer`, with the terminator. -/
def macToBuffer (mac : Mac) : Mem :=
  hexByte mac.b0 ++ [58] ++ hexByte mac.b1 ++ [58] ++ hexByte mac.b2 ++ [58] ++
    hexByte mac.b3 ++ [58] ++ hexByte mac.b4 ++ [58] ++ hexByte mac.b5 ++ [0]

def hexValue (c : Byte) : Nat :=
  if 48 ≤ c.toNat ∧ c.toNat < 58 then c.toNat - 48
  else if 97 ≤ c.toNat ∧ c.toNat < 103 then c.toNat - 87
  else 0

/-- `mac_from_str` on a string in the format of `mac_to_buffer`. No other string passes
`mac_verify`, whatever `sscanf` makes of it. -/
def macFromStr (fromstr : Mem) : Mac :=
  let c := cstr fromstr
  let byteAt := fun i => BitVec.ofNat 8 (16 * hexValue (c.getD i 0) + hexValue (c.getD (i + 1) 0))
  ⟨byteAt 0, byteAt 3, byteAt 6, byteAt 9, byteAt 12, byteAt 15⟩

/-- `mac_verify`; the bytes it compares are the string with its terminator. -/
def macVerify (macStr : Mem) : Int :=
  if strlen macStr + 1 = ethAlenStr ∧ cstr macStr ++ [0] = macToBuffer (macFromStr macStr) then 0
  else -1

/-! ### Operations that only the exports call -/

/-- `rtu_fd_create_vlan_entry`; the number of ports in `PSR` is the position of the CPU port. -/
def rtuFdCreateVlanEntry (vid : Int) (portMask : Word) (fid prio : Byte)
    (hasPrio prioOverride drop : Word) (tv : Word × Word) (s : RtuState) : RtuState :=
  let portNum : Int := (rtuPsrNPortsR s.fpga.psr).toNat
  let s := s.emit (.index .vlanTab vid)
  let cpuOnly := portMask = 0 ∧ drop = 1
  let ent : RtuVlanTableEntry :=
    { portMask := if cpuOnly then 0 else portMask ||| portBit portNum
      fid := fid
      prio := prio
      hasPrio := hasPrio
      prioOverride := prioOverride
      drop := drop
      creationTime := tv }
  let s := if cpuOnly then s else s.emit (.shift portNum)
  rtuWriteVlanEntry vid ent { s with vlanTab := Function.update s.vlanTab vid ent }

/-- The configuration that a request leaves: a mask is updated only if it is not zero or if
mirroring is disabled. -/
def updatedMirrorCfg (en imask emask dmask : Word) (cfg : RtuMirrorInfo) : RtuMirrorInfo where
  en := en
  imask := if en = 0 ∨ imask ≠ 0 then imask else cfg.imask
  emask := if en = 0 ∨ emask ≠ 0 then emask else cfg.emask
  dmask := if en = 0 ∨ dmask ≠ 0 then dmask else cfg.dmask

def rtuFdWriteMirrorConfig (en imask emask dmask : Word) (s : RtuState) : RtuState :=
  let cfg := updatedMirrorCfg en imask emask dmask s.mirrorCfg
  rtuEnableMirroring en (rtuCfgMirroring cfg (rtuEnableMirroring 0 { s with mirrorCfg := cfg }))

def rtuRxCtrPrioMaskMask : Word := wbgen2GenMask 8 8
def rtuRxCtrPrioMaskW (value : Word) : Word := wbgen2GenWrite value 8 8
def rtuRxCtrPrioMaskR (reg : Word) : Word := wbgen2GenRead reg 8 8

def rtuxGetHpPrioMask (s : RtuState) : Byte := (rtuRxCtrPrioMaskR s.fpga.rxCtr).setWidth 8

def rtuxSetHpPrioMask (hpPrioMask : Byte) (s : RtuState) : RtuState :=
  rtuWr .rxCtr (rtuRxCtrPrioMaskW (hpPrioMask.setWidth 32) |||
    (s.fpga.rxCtr &&& ~~~rtuRxCtrPrioMaskMask)) s

def qmodeAccess : Byte := 0
def qmodeTrunk : Byte := 1
def qmodeDisabled : Byte := 2
def qmodeUnq : Byte := 3

def RtuPortEntry.zero : RtuPortEntry := ⟨0, 0, 0, 0, 0, ⟨0, 0, 0, 0, 0, 0⟩⟩

/-- One turn of the loop of `rtu_clean_ports`. -/
def rtuCleanPort (epMac : Nat → Mac) (s : RtuState) (hwIndex : Nat) : RtuState :=
  let s := { s with
    portsCfg := Function.update s.portsCfg hwIndex
      { s.portsCfg hwIndex with qmode := qmodeUnq, fixPrio := 0, prio := 0, pvid := 0, untag := 0 } }
  let s := rtuWritePortCfgHw (BitVec.ofNat 8 hwIndex) s
  { s with
    portsCfg := Function.update s.portsCfg hwIndex
      { s.portsCfg hwIndex with mac := epMac hwIndex } }

def rtuCleanPorts (epMac : Nat → Mac) (s : RtuState) : RtuState :=
  let s := { s with
    portsCfg := fun i => if (i : Int) < halMaxPorts then .zero else s.portsCfg i }
  (List.range s.halNportsLocal.val.toNat).foldl (rtuCleanPort epMac) s

/-! ### Handlers

Each returns what it leaves in `*p_ret`, which is also its return value. -/

def rtudexpClearEntries (args : Mem) (s : RtuState) : Int × RtuState :=
  let port := (argAt args 0).toInt
  let type := argAt args 1
  if 0 > port ∨ port > s.halNportsLocal.val then (-1, s)
  else if rtuCheckType type ≠ 0 then (-1, s)
  else (0, rtuFdClearEntriesForPort port type s)

def rtudexpAddEntry (pd : MinipcPd RtudExp) (args : Mem) (env : RtudEnv) (s : RtuState) :
    Int × RtuState :=
  let mac := args
  let args := minipcGetNextArg args (pd.args.headD 0)
  let portMask := argAt args 0
  let type := argAt args 1
  let vid := (argAt args 2).toInt
  if macVerify mac ≠ 0 then (-1, s)
  else if rtuCheckType type ≠ 0 then (-1, s)
  else if 1 > portMask ∨ portMask > 0x7ffff then (-1, s)
  else if 0 > vid ∨ vid > 0xFFF then (-1, s)
  else rtuFdCreateEntry (macFromStr mac) (BitVec.ofInt 16 vid) portMask type overrideExisting
    env.now s

def rtudexpRemoveEntry (pd : MinipcPd RtudExp) (args : Mem) (s : RtuState) : Int × RtuState :=
  let mac := args
  let args := minipcGetNextArg args (pd.args.headD 0)
  let portMask := argAt args 0
  let type := argAt args 1
  if macVerify mac ≠ 0 then (-1, s)
  else if rtuCheckType type ≠ 0 then (-1, s)
  else if 1 > portMask ∨ portMask > 0x7ffff then (-1, s)
  else rtuFdRemoveEntry (macFromStr mac) portMask type s

/-- The loop that reads a flag of the ports in a mask. -/
def readFlags (read : Int → RtuState → Int × RtuState) (portMask : Word) :
    List Nat → Word → RtuState → Int × RtuState
  | [], flags, s => (flags.toInt, s)
  | i :: is, flags, s =>
    if portMask.getLsbD i then
      let (localRet, s) := read i s
      if localRet < 0 then (localRet, s)
      else readFlags read portMask is (flags ||| (BitVec.ofInt 32 localRet <<< i)) s
    else readFlags read portMask is flags s

/-- The loop that sets a flag of the ports in a mask. -/
def setFlags (set : Int → Word → RtuState → Int × RtuState) (enable portMask : Word) :
    List Nat → Int → RtuState → Int × RtuState
  | [], ret, s => (ret, s)
  | i :: is, ret, s =>
    if portMask.getLsbD i then
      let (localRet, s) := set i enable s
      if localRet < 0 then (localRet, s)
      else setFlags set enable portMask is (ret + 1) s
    else setFlags set enable portMask is ret s

/-- The common body of `rtudexp_learning_process` and `rtudexp_unrec`. -/
def portFlags (getOper setOper : Word) (read : Int → RtuState → Int × RtuState)
    (set : Int → Word → RtuState → Int × RtuState) (args : Mem) (s : RtuState) : Int × RtuState :=
  let oper := argAt args 0
  let enable := argAt args 1
  let portMask := argAt args 2
  if 1 > portMask ∨ portMask > 0x3ffff then (-1, s)
  else if oper = getOper then readFlags read portMask (List.range 18) 0 s
  else if oper = setOper then setFlags set enable portMask (List.range 18) 0 s
  else (-1, s)

def rtuSetLearning : Word := 1
def rtuGetLearning : Word := 2
def rtuSetUnrec : Word := 1
def rtuGetUnrec : Word := 2

def rtudexpLearningProcess : Mem → RtuState → Int × RtuState :=
  portFlags rtuGetLearning rtuSetLearning rtuLearnReadOnPort rtuLearnEnableOnPort

def rtudexpUnrec : Mem → RtuState → Int × RtuState :=
  portFlags rtuGetUnrec rtuSetUnrec rtuReadUnrecognisedBehaviourOnPort
    rtuSetUnrecognisedBehaviourOnPort

def rtuSetHpMask : Word := 1
def rtuGetHpMask : Word := 2

def rtudexpHpMask (args : Mem) (s : RtuState) : Int × RtuState :=
  let oper := argAt args 0
  let hpMask := argAt args 1
  if oper = rtuSetHpMask then
    if hpMask ≥ 1 <<< 8 then (-1, s) else (0, rtuxSetHpPrioMask (hpMask.setWidth 8) s)
  else if oper = rtuGetHpMask then ((rtuxGetHpPrioMask s).toNat, s)
  else (-1, s)

def rtudexpVlanEntry (args : Mem) (env : RtudEnv) (s : RtuState) : Int × RtuState :=
  let vid := (argAt args 0).toInt
  let fid := argAt args 1
  let mask := argAt args 2
  let drop := argAt args 3
  let prio := argAt args 4
  let hasPrio := argAt args 5
  let prioOverride := argAt args 6
  (0, rtuFdCreateVlanEntry vid mask (fid.setWidth 8) (prio.setWidth 8) hasPrio prioOverride drop
    env.tv s)

def rtudexpMirror (args : Mem) (s : RtuState) : Int × RtuState :=
  let enable := argAt args 0
  let imask := argAt args 1
  let emask := argAt args 2
  let dmask := argAt args 3
  -- the masks are unsigned, so none is below zero
  if imask > 0x3ffff then (-1, s)
  else if emask > 0x3ffff then (-1, s)
  else if enable = 1 ∧ (dmask < 1 ∨ dmask > 0x3ffff) then (-1, s)
  else (0, rtuFdWriteMirrorConfig enable imask emask dmask s)

def portPrioMax : Byte := 7
def portVidMax : BitVec 16 := 4094

def rtudexpPortCfg (args : Mem) (s : RtuState) : Int × RtuState :=
  let hwIndex : Byte := (argAt args 0).setWidth 8
  let validMask : Byte := (argAt args 1).setWidth 8
  let qmode : Byte := (argAt args 2).setWidth 8
  let fixPrio : Byte := (argAt args 3).setWidth 8
  let prio : Byte := (argAt args 4).setWidth 8
  let pvid : BitVec 16 := (argAt args 5).setWidth 16
  let untag : Byte := (argAt args 6).setWidth 8
  if (hwIndex.toNat : Int) > s.halNportsLocal.val then (-1, s)
  else if ¬(qmode = qmodeAccess ∨ qmode = qmodeTrunk ∨ qmode = qmodeDisabled ∨ qmode = qmodeUnq) then
    (-1, s)
  else if ¬(fixPrio = 0 ∨ fixPrio = 1) then (-1, s)
  else if prio > portPrioMax then (-1, s)
  else if pvid > portVidMax then (-1, s)
  else if ¬(untag = 0 ∨ untag = 1) then (-1, s)
  else (0, rtuWritePortConfig hwIndex validMask qmode fixPrio prio pvid untag s)

/-- `rtudexp_port_cfg_clear_all` returns the word that it found at `ret`. -/
def rtudexpPortCfgClearAll (ret : Word) (env : RtudEnv) (s : RtuState) : Int × RtuState :=
  (ret.toInt, rtuCleanPorts env.epMac s)

/-- A call through the function pointer of a descriptor. -/
def rtudCall (pd : MinipcPd RtudExp) (args : Mem) (ret : Word) (env : RtudEnv) (s : RtuState) :
    Int × RtuState :=
  match pd.f with
  | .clearEntries => rtudexpClearEntries args s
  | .addEntry => rtudexpAddEntry pd args env s
  | .removeEntry => rtudexpRemoveEntry pd args s
  | .learningProcess => rtudexpLearningProcess args s
  | .unrec => rtudexpUnrec args s
  | .hpMask => rtudexpHpMask args s
  | .vlanEntry => rtudexpVlanEntry args env s
  | .mirror => rtudexpMirror args s
  | .portCfg => rtudexpPortCfg args s
  | .portCfgClearAll => rtudexpPortCfgClearAll ret env s

/-! ### Declared arguments -/

/-- The declared types without the terminator. -/
def pdTypes (e : RtudExport) : List Word := (rtudPd e).args.takeWhile (· ≠ minipcArgEnd)

/-- What the handler of a descriptor does is settled by the words that the descriptor declares. -/
def ReadsDeclared (e : RtudExport) : Prop :=
  ∀ sent rest rest' : Mem, declaredBytes (pdTypes e) (sent ++ rest) = sent.length →
    ∀ ret env s, rtudCall (rtudPd e) (sent ++ rest') ret env s =
      rtudCall (rtudPd e) (sent ++ rest) ret env s

private theorem argAt_append (sent rest : Mem) (i : Nat) (inside : 4 * i + 4 ≤ sent.length) :
    argAt (sent ++ rest) i = argAt sent i := by
  rw [argAt, List.drop_append_of_le_length (by omega), loadBits_append, argAt]
  rw [List.length_drop]
  omega

private theorem argWords_int (arg : Mem) : argWords arg argInt = 1 := by
  have int : minipcGetAtype argInt = some .int := by decide
  have size : minipcGetAsize argInt = 4 := by decide
  simp [argWords, int, size, getAnum_eq]

private theorem int_words (w : Word) : (Arg.int w).slotWords = 1 ∧ (Arg.int w).words = 1 := by
  simp [Arg.slotWords, Arg.words, Arg.asize, Arg.bytes, getAnum_eq]

/-- Integers are accepted as long as there is room for them. -/
theorem accepts_ints (ws : List Word) (narg : Nat) (room : narg + ws.length < minipcMaxArguments) :
    Accepts narg (ws.map Arg.int) := by
  induction ws generalizing narg with
  | nil => exact room
  | cons w ws ih =>
    rw [List.length_cons] at room
    obtain ⟨slot, words⟩ := int_words w
    refine ⟨by omega, by omega, ?_⟩
    rw [words]
    exact ih (narg + 1) (by omega)

private theorem readArgs_ints (n : Nat) (arg : Mem) :
    (readArgs (List.replicate n argInt) arg).1 =
      (List.range n).map fun i => some (.int (argAt arg i)) := by
  induction n generalizing arg with
  | zero => rfl
  | succ n ih =>
    have int : minipcGetAtype argInt = some .int := by decide
    have first : readArg arg argInt = some (.int (argAt arg 0)) := by
      simp only [readArg, int, argAt, Nat.mul_zero, List.drop_zero]
    have next (i : Nat) : argAt (minipcGetNextArg arg argInt) i = argAt arg (i + 1) := by
      rw [minipcGetNextArg, argWords_int, argAt, argAt, List.drop_drop]
      congr 2
      omega
    have step : (readArgs (argInt :: List.replicate n argInt) arg).1 =
      readArg arg argInt :: (readArgs (List.replicate n argInt) (minipcGetNextArg arg argInt)).1 :=
        rfl
    rw [List.replicate_succ, step, ih, first, List.range_succ_eq_map, List.map_cons, List.map_map]
    simp only [next, Function.comp_def, Nat.succ_eq_add_one]

/-- The handler of a call with integers finds them in `args`. -/
theorem marshal_ints (ws : List Word) (room : ws.length < minipcMaxArguments) (out : ArgBytes) :
    ∃ out', marshal (List.replicate ws.length argInt ++ [minipcArgEnd]) (ws.map VaArg.int) 0 out =
        .packed ws.length out' ∧
      ∀ i (inside : i < ws.length), argAt (window out' 0 (4 * ws.length)) i = ws[i] := by
  obtain ⟨out', packed, _, walk⟩ := marshal_accepted out
    (accepts_ints ws 0 (by rw [Nat.zero_add]; exact room))
  have slots : (ws.map Arg.int).map Arg.slot = List.replicate ws.length argInt := by
    have each : (Arg.slot ∘ Arg.int) = fun _ => argInt := rfl
    rw [List.map_map, each, List.map_const']
  have values : (ws.map Arg.int).map Arg.value = ws.map VaArg.int := by
    rw [List.map_map]
    rfl
  -- an integer takes one word, so the slots and the arguments run alike
  have words : wordsOf (ws.map Arg.int) = ws.length := by
    have each : (Arg.words ∘ Arg.int) = fun _ => 1 := funext fun w => (int_words w).2
    rw [wordsOf, List.map_map, each, List.map_const', List.sum_replicate_nat, Nat.mul_one]
  rw [declared, slots, values, words, Nat.zero_add] at packed
  refine ⟨out', packed, fun i inside => ?_⟩
  have read := walk []
  rw [slots, words, List.append_nil] at read
  have all := congrArg Prod.fst read
  rw [readArgs_ints, List.map_map] at all
  have each := congrArg (fun values => values[i]?) all
  simpa [inside, Arg.value] using each

private theorem argWords_string (arg : Mem) :
    argWords arg argString = minipcGetAnum (strlen arg + 1) := by
  have string : minipcGetAtype argString = some .string := by decide
  simp [argWords, string]

private theorem declaredBytes_ints (n : Nat) (arg : Mem) :
    declaredBytes (List.replicate n argInt) arg = 4 * n := by
  induction n generalizing arg with
  | zero => rfl
  | succ n ih =>
    rw [List.replicate_succ, declaredBytes, argWords_int, ih]
    omega

/-- A walk that starts with a string ends among the words that were sent only if the string does. -/
theorem string_inside (sent rest : Mem) (n : Nat)
    (all : declaredBytes (argString :: List.replicate n argInt) (sent ++ rest) = sent.length) :
    0 ∈ sent ∧ 4 * minipcGetAnum (strlen (sent ++ rest) + 1) + 4 * n = sent.length := by
  rw [declaredBytes, declaredBytes_ints, argWords_string] at all
  refine ⟨?_, all⟩
  by_contra open_
  have longer : sent.length ≤ strlen (sent ++ rest) := by
    have nonzero : ∀ b ∈ sent, decide (b ≠ 0) = true := by
      intro b member
      simpa using fun zero : b = 0 => open_ (zero ▸ member)
    rw [strlen, cstr, List.takeWhile_append_of_pos nonzero, List.length_append]
    omega
  rw [getAnum_eq] at all
  omega

private theorem cstr_sent (sent rest rest' : Mem) (terminated : 0 ∈ sent) :
    cstr (sent ++ rest') = cstr (sent ++ rest) := by
  rw [cstr_append _ _ terminated, cstr_append _ _ terminated]

/-- The handlers of a MAC string read it up to its terminator. -/
theorem macVerify_congr (s s' : Mem) (same : cstr s' = cstr s) :
    macVerify s' = macVerify s ∧ macFromStr s' = macFromStr s := by
  have mac : macFromStr s' = macFromStr s := by simp only [macFromStr, same]
  exact ⟨by rw [macVerify, macVerify, mac, strlen, strlen, same], mac⟩

private theorem argAt_next (sent rest rest' : Mem) (n i : Nat) (terminated : 0 ∈ sent)
    (all : 4 * minipcGetAnum (strlen (sent ++ rest) + 1) + 4 * n = sent.length) (inside : i < n) :
    argAt (minipcGetNextArg (sent ++ rest') argString) i =
      argAt (minipcGetNextArg (sent ++ rest) argString) i := by
  have same : strlen (sent ++ rest') = strlen (sent ++ rest) :=
    congrArg List.length (cstr_sent sent rest rest' terminated)
  rw [minipcGetNextArg, minipcGetNextArg, argWords_string, argWords_string, same,
    List.drop_append_of_le_length (by omega), List.drop_append_of_le_length (by omega),
    argAt_append _ _ _ (by rw [List.length_drop]; omega),
    argAt_append _ _ _ (by rw [List.length_drop]; omega)]

private theorem readsDeclared_addEntry : ReadsDeclared .addEntry := by
  intro sent rest rest' all ret env s
  have types : pdTypes .addEntry = argString :: List.replicate 3 argInt := by decide
  rw [types] at all
  obtain ⟨terminated, length⟩ := string_inside sent rest 3 all
  obtain ⟨verified, mac⟩ := macVerify_congr _ _ (cstr_sent sent rest rest' terminated)
  have first : (rtudPd .addEntry).args.headD 0 = argString := rfl
  have next := fun i => argAt_next sent rest rest' 3 i terminated length
  change rtudexpAddEntry _ _ _ _ = rtudexpAddEntry _ _ _ _
  simp only [rtudexpAddEntry, first, verified, mac, next 0 (by omega), next 1 (by omega),
    next 2 (by omega)]

private theorem readsDeclared_removeEntry : ReadsDeclared .removeEntry := by
  intro sent rest rest' all ret env s
  have types : pdTypes .removeEntry = argString :: List.replicate 2 argInt := by decide
  rw [types] at all
  obtain ⟨terminated, length⟩ := string_inside sent rest 2 all
  obtain ⟨verified, mac⟩ := macVerify_congr _ _ (cstr_sent sent rest rest' terminated)
  have first : (rtudPd .removeEntry).args.headD 0 = argString := rfl
  have next := fun i => argAt_next sent rest rest' 2 i terminated length
  change rtudexpRemoveEntry _ _ _ = rtudexpRemoveEntry _ _ _
  simp only [rtudexpRemoveEntry, first, verified, mac, next 0 (by omega), next 1 (by omega)]

/-- The other handlers index `args` by constants. -/
theorem readsDeclared_ints (e : RtudExport) (n : Nat) (types : pdTypes e = List.replicate n argInt)
    (indexed : ∀ args args' : Mem, (∀ i < n, argAt args' i = argAt args i) → ∀ ret env s,
      rtudCall (rtudPd e) args' ret env s = rtudCall (rtudPd e) args ret env s) :
    ReadsDeclared e := by
  intro sent rest rest' all ret env s
  rw [types, declaredBytes_ints] at all
  apply indexed
  intro i inside
  rw [argAt_append _ _ _ (by omega), argAt_append _ _ _ (by omega)]

private theorem readsDeclared_learningProcess : ReadsDeclared .learningProcess := by
  refine readsDeclared_ints _ 3 (by decide) fun args args' same ret env s => ?_
  simp only [rtudCall, rtudPd, rtudexpLearningProcess, portFlags, same 0 (by decide),
    same 1 (by decide), same 2 (by decide)]

private theorem readsDeclared_unrec : ReadsDeclared .unrec := by
  refine readsDeclared_ints _ 3 (by decide) fun args args' same ret env s => ?_
  simp only [rtudCall, rtudPd, rtudexpUnrec, portFlags, same 0 (by decide), same 1 (by decide),
    same 2 (by decide)]

private theorem readsDeclared_vlanEntry : ReadsDeclared .vlanEntry := by
  refine readsDeclared_ints _ 7 (by decide) fun args args' same ret env s => ?_
  simp only [rtudCall, rtudPd, rtudexpVlanEntry, same 0 (by decide), same 1 (by decide),
    same 2 (by decide), same 3 (by decide), same 4 (by decide), same 5 (by decide),
    same 6 (by decide)]

private theorem readsDeclared_hpMask : ReadsDeclared .hpMask := by
  refine readsDeclared_ints _ 2 (by decide) fun args args' same ret env s => ?_
  simp only [rtudCall, rtudPd, rtudexpHpMask, same 0 (by decide), same 1 (by decide)]

private theorem readsDeclared_mirror : ReadsDeclared .mirror := by
  refine readsDeclared_ints _ 4 (by decide) fun args args' same ret env s => ?_
  simp only [rtudCall, rtudPd, rtudexpMirror, same 0 (by decide), same 1 (by decide),
    same 2 (by decide), same 3 (by decide)]

private theorem readsDeclared_portCfg : ReadsDeclared .portCfg := by
  refine readsDeclared_ints _ 7 (by decide) fun args args' same ret env s => ?_
  simp only [rtudCall, rtudPd, rtudexpPortCfg, same 0 (by decide), same 1 (by decide),
    same 2 (by decide), same 3 (by decide), same 4 (by decide), same 5 (by decide),
    same 6 (by decide)]

private theorem readsDeclared_portCfgClearAll : ReadsDeclared .portCfgClearAll := by
  exact readsDeclared_ints _ 0 (by decide) fun _ _ _ _ _ _ => rfl

/-- `rtudexp_clear_entries` takes the type from a second word, which its descriptor does not
declare. -/
theorem not_readsDeclared_clearEntries : ¬ReadsDeclared .clearEntries := by
  intro declared
  have types : pdTypes .clearEntries = List.replicate 1 argInt := by decide
  have length : declaredBytes (pdTypes .clearEntries)
      (storeBits (0 : Word) ++ storeBits (0 : Word)) = (storeBits (0 : Word)).length := by
    rw [types, declaredBytes_ints]
    rfl
  have same := declared (storeBits (0 : Word)) (storeBits (0 : Word)) (storeBits (2 : Word)) length 0
    ⟨0, (0, 0), fun _ => ⟨0, 0, 0, 0, 0, 0⟩⟩ firstStartState
  have results := congrArg Prod.fst same
  revert results
  decide

/-- Arguments make the round trip, or the call refuses them for their size, exactly if they are
accepted, or take more than `MINIPC_MAX_ARGUMENTS` words without an overflow on the way; and
every handler reads declared words only, but for that of `clear_entries`. -/
theorem arguments_marshalled (args : List Arg) (out : ArgBytes) :
    (RoundTrips args out ↔
      Accepts 0 args ∨ minipcMaxArguments < wordsOf args ∧ ¬Overruns 0 args) ∧
    ∀ e, ReadsDeclared e ↔ e ≠ .clearEntries := by
  refine ⟨roundTrips_iff args out, ?_⟩
  intro e
  cases e with
  | clearEntries => exact iff_of_false not_readsDeclared_clearEntries fun other => other rfl
  | addEntry => exact iff_of_true readsDeclared_addEntry (by decide)
  | removeEntry => exact iff_of_true readsDeclared_removeEntry (by decide)
  | learningProcess => exact iff_of_true readsDeclared_learningProcess (by decide)
  | unrec => exact iff_of_true readsDeclared_unrec (by decide)
  | vlanEntry => exact iff_of_true readsDeclared_vlanEntry (by decide)
  | hpMask => exact iff_of_true readsDeclared_hpMask (by decide)
  | mirror => exact iff_of_true readsDeclared_mirror (by decide)
  | portCfg => exact iff_of_true readsDeclared_portCfg (by decide)
  | portCfgClearAll => exact iff_of_true readsDeclared_portCfgClearAll (by decide)

/-- A call of `clear_entries` depends on a word that is not sent with it, and 256 integers are
refused although they take no more than `MINIPC_MAX_ARGUMENTS` words. -/
theorem arguments_mismarshalled :
    ¬ReadsDeclared .clearEntries ∧ ¬RoundTrips (List.replicate 256 (.int 0)) fun _ => 0 := by
  refine ⟨not_readsDeclared_clearEntries, ?_⟩
  have words : wordsOf (List.replicate 256 (.int 0)) = minipcMaxArguments := by
    rw [wordsOf, List.map_replicate, List.sum_replicate_nat]
    rfl
  rw [roundTrips_iff, words]
  rintro (accepts | ⟨large, _⟩)
  · have total := accepts.total
    omega
  · exact absurd large (Nat.lt_irrefl _)

end WrSwitch.Rtu
