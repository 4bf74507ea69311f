import WrSwitch.Tools.WrsVlans

/-!
# VLAN requests on their way to the tables

`config_rtud`: which of the fields of a request arrive in `vlan_tab` and in the registers, and
which VLANs keep their filtering entries apart.
-/
namespace WrSwitch.Tools

open Machine MiniRpc Rtu

/-! ### The remote calls -/

/-- `rtu_find_vlan` on the entry that it copies. -/
def rtuFindVlan (rtuVlanEntry : RtuVlanTableEntry) (fid : Int) : Bool :=
  -- entries that are not active are ignored
  if rtuVlanEntry.drop ≠ 0 ∧ rtuVlanEntry.portMask = 0 then false
  else decide (fid = rtuVlanEntry.fid.toNat ∨ fid = -1)

/-- The request that `config_rtud` passes on: settings that are not overwritten are preserved. -/
def preserve (rtuVlanEntry : RtuVlanTableEntry) (cur : RtuVlans) : RtuVlans :=
  if rtuFindVlan rtuVlanEntry (if cur.flags &&& validFid ≠ 0 then cur.fid else -1) then
    let cur := if cur.flags &&& validFid = 0 then { cur with fid := rtuVlanEntry.fid.toNat } else cur
    let cur := if cur.flags &&& validPmask = 0 then
        { cur with pmask := rtuVlanEntry.portMask.toInt }
      else cur
    let cur := if cur.flags &&& validDrop = 0 then { cur with drop := rtuVlanEntry.drop.toInt } else cur
    if cur.flags &&& validPrio = 0 then
      { cur with
        prio := rtuVlanEntry.prio.toNat
        hasPrio := rtuVlanEntry.hasPrio.toInt
        prioOverride := rtuVlanEntry.prioOverride.toInt }
    else cur
  else cur

/-- The arguments of the call in `config_rtud`. -/
def requestWords (cur : RtuVlans) : List Word :=
  [cur.vid, cur.fid, cur.pmask, cur.drop, cur.prio, cur.hasPrio, cur.prioOverride].map
    (BitVec.ofInt 32)

/-- `minipc_call` with `rtud_export_vlan_entry`: the arguments are packed, and the handler is
called with what was packed. -/
def callVlanEntry (cur : RtuVlans) (env : RtudEnv) (s : RtuState) : RtuState :=
  match marshal (rtudPd .vlanEntry).args ((requestWords cur).map .int) 0 fun _ => 0 with
  | .packed narg out => (rtudCall (rtudPd .vlanEntry) (window out 0 (4 * narg)) 0 env s).2
  | _ => s

/-- `config_rtud`, with what the clock gives for each call. -/
def configRtud : List (RtuVlans × RtudEnv) → RtuState → RtuState
  | [], s => s
  | (cur, env) :: next, s => configRtud next (callVlanEntry (preserve (s.vlanTab cur.vid) cur) env s)

/-- The requests that `config_rtud` passes on, in their order. -/
def passedOn : List (RtuVlans × RtudEnv) → RtuState → List RtuVlans
  | [], _ => []
  | (cur, env) :: next, s =>
    let request := preserve (s.vlanTab cur.vid) cur
    request :: passedOn next (callVlanEntry request env s)

private theorem callVlanEntry_eq (cur : RtuVlans) (env : RtudEnv) (s : RtuState) :
    callVlanEntry cur env s = (rtudexpVlanEntry (wordArgs (requestWords cur)) env s).2 := by
  obtain ⟨out, packed, read⟩ := marshal_ints (requestWords cur) (by decide : 7 < 256) fun _ => 0
  have declared : (rtudPd .vlanEntry).args =
    List.replicate (requestWords cur).length argInt ++ [minipcArgEnd] := rfl
  have same (i : Nat) (inside : i < 7) : argAt (window out 0 (4 * (requestWords cur).length)) i =
      argAt (wordArgs (requestWords cur)) i := by
    rw [read i inside, argAt_wordArgs (requestWords cur) i inside]
  rw [callVlanEntry, declared, packed]
  simp only [rtudCall, rtudPd, rtudexpVlanEntry, same 0 (by decide), same 1 (by decide),
    same 2 (by decide), same 3 (by decide), same 4 (by decide), same 5 (by decide),
    same 6 (by decide)]

/-! ### Arrival -/

/-- The position of the CPU port. -/
def cpuPort (s : RtuState) : Int := (rtuPsrNPortsR s.fpga.psr).toNat

/-- The ports of a VLAN; only one that is deleted goes without the CPU port. -/
def vlanPorts (pmask drop : Int) (cpu : Int) : Word :=
  if pmask = 0 ∧ drop = 1 then 0 else BitVec.ofInt 32 pmask ||| portBit cpu

/-- An entry of the table and its words in the hardware hold what was requested. A priority counts
with `has_prio` only; one that the entry had before may be too wide for its register field. -/
structure ArrivesAs (request : RtuVlans) (ent : RtuVlanTableEntry) (words : Word × Word)
    (cpu : Int) : Prop where
  fid : (ent.fid.toNat : Int) = request.fid
  fidWord : ((rtuVtr1FidR words.1).toNat : Int) = request.fid
  hasPrio : ent.hasPrio ≠ 0 ↔ request.hasPrio ≠ 0
  hasPrioWord : words.1 &&& rtuVtr1HasPrio ≠ 0 ↔ request.hasPrio ≠ 0
  prio : request.hasPrio ≠ 0 → (ent.prio.toNat : Int) = request.prio
  prioWord : request.flags &&& validPrio ≠ 0 → request.hasPrio ≠ 0 →
    ((rtuVtr1PrioR words.1).toNat : Int) = request.prio
  prioOverride : ent.prioOverride ≠ 0 ↔ request.prioOverride ≠ 0
  prioOverrideWord : words.1 &&& rtuVtr1PrioOverride ≠ 0 ↔ request.prioOverride ≠ 0
  drop : ent.drop.toInt = request.drop
  dropWord : words.1 &&& rtuVtr1Drop ≠ 0 ↔ request.drop ≠ 0
  ports : ent.portMask = vlanPorts request.pmask request.drop cpu
  portsWord : words.2 = vlanPorts request.pmask request.drop cpu

def Arrives (request : RtuVlans) (s : RtuState) : Prop :=
  ArrivesAs request (s.vlanTab request.vid) (s.fpga.vlan (BitVec.ofInt 32 request.vid)) (cpuPort s)

def IntRange (v : Int) : Prop := -2147483648 ≤ v ∧ v < 2147483648

/-- The requests that are passed on. -/
structure PassedOn (request : RtuVlans) : Prop where
  vid : 0 ≤ request.vid ∧ request.vid < numVlans
  fid : 0 ≤ request.fid
  pmask : IntRange request.pmask
  drop : IntRange request.drop
  hasPrio : IntRange request.hasPrio
  prioOverride : IntRange request.prioOverride
  prio : request.hasPrio ≠ 0 → 0 ≤ request.prio ∧ request.prio < 256
  prioGiven : request.flags &&& validPrio ≠ 0 → request.hasPrio ≠ 0 → request.prio < 8

private theorem toInt_range (w : Word) : IntRange w.toInt := ⟨BitVec.le_toInt w, BitVec.toInt_lt⟩

theorem ofInt_toInt {v : Int} (range : IntRange v) : (BitVec.ofInt 32 v : Word).toInt = v := by
  obtain ⟨low, high⟩ := range
  rw [BitVec.toInt_ofInt]
  exact Int.bmod_eq_of_le (by omega) (by omega)

private theorem ofInt_zero_iff {v : Int} (range : IntRange v) :
    (BitVec.ofInt 32 v : Word) ≠ 0 ↔ v ≠ 0 := by
  have value := ofInt_toInt range
  constructor
  · rintro nonzero rfl
    exact nonzero rfl
  · intro nonzero zero
    rw [zero] at value
    exact nonzero value.symm

/-- An `int` in a byte. -/
theorem ofInt_byte (v : Int) :
    (((BitVec.ofInt 32 v : Word).setWidth 8).toNat : Int) = v % 256 := by
  rw [BitVec.toNat_setWidth, BitVec.toNat_ofInt]
  omega

/-- What becomes of a request for an active entry. -/
theorem preserve_found {ent : RtuVlanTableEntry} {cur : RtuVlans}
    (found : rtuFindVlan ent (if cur.flags &&& validFid ≠ 0 then cur.fid else -1) = true) :
    preserve ent cur =
      { vid := cur.vid
        fid := if cur.flags &&& validFid = 0 then ent.fid.toNat else cur.fid
        pmask := if cur.flags &&& validPmask = 0 then ent.portMask.toInt else cur.pmask
        drop := if cur.flags &&& validDrop = 0 then ent.drop.toInt else cur.drop
        prio := if cur.flags &&& validPrio = 0 then ent.prio.toNat else cur.prio
        hasPrio := if cur.flags &&& validPrio = 0 then ent.hasPrio.toInt else cur.hasPrio
        prioOverride :=
          if cur.flags &&& validPrio = 0 then ent.prioOverride.toInt else cur.prioOverride
        flags := cur.flags } := by
  simp only [preserve, if_pos found]
  split_ifs <;> rfl

/-- The settings that are preserved are those of the same VID. -/
theorem preserve_vid (ent : RtuVlanTableEntry) (cur : RtuVlans) :
    (preserve ent cur).vid = cur.vid := by
  simp only [preserve, apply_ite RtuVlans.vid, ite_self]

/-- What was checked is passed on as it is. -/
theorem RtuVlans.Checked.passedOn {cur : RtuVlans} (checked : cur.Checked) : PassedOn cur := by
  obtain ⟨vid, fid, pmask, drop, prio⟩ := checked
  rw [rtuVidMax] at vid
  rw [rtuPmaskMax] at pmask
  rw [rtuPrioMax] at prio
  refine ⟨⟨vid.1, ?_⟩, fid.1, ⟨?_, ?_⟩, ⟨?_, ?_⟩, ⟨?_, ?_⟩, ⟨?_, ?_⟩, fun has => ⟨?_, ?_⟩,
    fun _ has => ?_⟩
  · rw [numVlans]
    omega
  all_goals omega

/-- What is preserved is passed on as it is. -/
theorem preserve_passedOn (ent : RtuVlanTableEntry) {cur : RtuVlans} (checked : cur.Checked) :
    PassedOn (preserve ent cur) := by
  have own := checked.passedOn
  -- what is not given comes from the entry, which is in range
  by_cases found : rtuFindVlan ent (if cur.flags &&& validFid ≠ 0 then cur.fid else -1) = true
  · rw [preserve_found found]
    have byte := ent.prio.isLt
    refine ⟨own.vid, ?_, ?_, ?_, ?_, ?_, ?_, ?_⟩
    all_goals dsimp only
    · split
      · exact Int.natCast_nonneg _
      · exact own.fid
    · split
      · exact toInt_range _
      · exact own.pmask
    · split
      · exact toInt_range _
      · exact own.drop
    · split
      · exact toInt_range _
      · exact own.hasPrio
    · split
      · exact toInt_range _
      · exact own.prioOverride
    · split
      · intro _
        omega
      · exact own.prio
    · intro given
      rw [if_neg given, if_neg given]
      exact own.prioGiven given
  · have unchanged : preserve ent cur = cur := by
      simp only [preserve, if_neg found]
    rw [unchanged]
    exact own

/-- The entry that the daemon makes of a request. -/
theorem callVlanEntry_vlan {request : RtuVlans} (sent : PassedOn request) (env : RtudEnv)
    (s : RtuState) :
    let ent := newVlanEntry (cpuPort s) (BitVec.ofInt 32 request.pmask)
      ((BitVec.ofInt 32 request.fid).setWidth 8) ((BitVec.ofInt 32 request.prio).setWidth 8)
      (BitVec.ofInt 32 request.hasPrio) (BitVec.ofInt 32 request.prioOverride)
      (BitVec.ofInt 32 request.drop) env.tv
    (callVlanEntry request env s).vlanTab = Function.update s.vlanTab request.vid ent ∧
      (callVlanEntry request env s).fpga.vlan = Function.update s.fpga.vlan
        (BitVec.ofInt 32 request.vid) (vtr1Word request.vid ent, ent.portMask) ∧
      OnlyVlans s (callVlanEntry request env s) := by
  have limit : numVlans = 4096 := rfl
  have vid : (BitVec.ofInt 32 request.vid : Word).toInt = request.vid :=
    ofInt_toInt ⟨by have := sent.vid; omega, by have := sent.vid; omega⟩
  have arg := argAt_wordArgs (requestWords request)
  have first : argAt (wordArgs (requestWords request)) 0 = BitVec.ofInt 32 request.vid :=
    arg 0 (by decide : 0 < 7)
  have stored := rtudexpVlanEntry_vlan (wordArgs (requestWords request)) env s
    (by rw [first, vid]; exact sent.vid)
  rw [← callVlanEntry_eq, first, vid] at stored
  -- the words of the call are those of the request
  have ent : requestedVlan (wordArgs (requestWords request)) env s =
      newVlanEntry (cpuPort s) (BitVec.ofInt 32 request.pmask)
        ((BitVec.ofInt 32 request.fid).setWidth 8) ((BitVec.ofInt 32 request.prio).setWidth 8)
        (BitVec.ofInt 32 request.hasPrio) (BitVec.ofInt 32 request.prioOverride)
        (BitVec.ofInt 32 request.drop) env.tv := by
    rw [requestedVlan, arg 1 (by decide : 1 < 7), arg 2 (by decide : 2 < 7),
      arg 3 (by decide : 3 < 7), arg 4 (by decide : 4 < 7), arg 5 (by decide : 5 < 7),
      arg 6 (by decide : 6 < 7)]
    rfl
  rw [ent] at stored
  exact stored

/-- The words of an entry that was made of a request. -/
theorem newVlanEntry_arrives {request : RtuVlans} (sent : PassedOn request) (cpu : Int)
    (tv : Word × Word) (narrow : request.fid < 256) :
    let ent := newVlanEntry cpu (BitVec.ofInt 32 request.pmask)
      ((BitVec.ofInt 32 request.fid).setWidth 8) ((BitVec.ofInt 32 request.prio).setWidth 8)
      (BitVec.ofInt 32 request.hasPrio) (BitVec.ofInt 32 request.prioOverride)
      (BitVec.ofInt 32 request.drop) tv
    ArrivesAs request ent (vtr1Word request.vid ent, ent.portMask) cpu := by
  intro ent
  have fid : (ent.fid.toNat : Int) = request.fid := by
    have byte := ofInt_byte request.fid
    have positive := sent.fid
    change (((BitVec.ofInt 32 request.fid : Word).setWidth 8).toNat : Int) = request.fid
    omega
  have prio : request.hasPrio ≠ 0 → (ent.prio.toNat : Int) = request.prio := by
    intro has
    have byte := ofInt_byte request.prio
    have range := sent.prio has
    change (((BitVec.ofInt 32 request.prio : Word).setWidth 8).toNat : Int) = request.prio
    omega
  have ports : ent.portMask = vlanPorts request.pmask request.drop cpu := by
    change (if BitVec.ofInt 32 request.pmask = 0 ∧ BitVec.ofInt 32 request.drop = 1 then 0
      else BitVec.ofInt 32 request.pmask ||| portBit cpu) = _
    have mask := not_iff_not.mp (ofInt_zero_iff sent.pmask)
    have drop : (BitVec.ofInt 32 request.drop : Word) = 1 ↔ request.drop = 1 := by
      constructor
      · intro one
        rw [← ofInt_toInt sent.drop, one]
        rfl
      · intro one
        rw [one]
        rfl
    simp only [vlanPorts, mask, drop]
  refine ⟨fid, ?_, ?_, ?_, prio, ?_, ?_, ?_, ?_, ?_, ports, ports⟩
  · rw [vtr1Word_fid, BitVec.toNat_setWidth]
    have byte := ent.fid.isLt
    omega
  · exact ofInt_zero_iff sent.hasPrio
  · rw [vtr1Word_hasPrio]
    exact ofInt_zero_iff sent.hasPrio
  · intro given has
    -- a priority that was given has three bits
    have small := sent.prioGiven given has
    have value := prio has
    rw [vtr1Word_prio, (prio_field ent.prio).mpr (by omega), BitVec.toNat_setWidth]
    have byte := ent.prio.isLt
    omega
  · exact ofInt_zero_iff sent.prioOverride
  · rw [vtr1Word_prioOverride]
    exact ofInt_zero_iff sent.prioOverride
  · exact ofInt_toInt sent.drop
  · rw [vtr1Word_drop]
    exact ofInt_zero_iff sent.drop

/-- Only the FID may be too wide. -/
theorem callVlanEntry_arrives {request : RtuVlans} (sent : PassedOn request) (env : RtudEnv)
    (s : RtuState) : Arrives request (callVlanEntry request env s) ↔ request.fid < 256 := by
  obtain ⟨tab, words, only⟩ := callVlanEntry_vlan sent env s
  have cpu : cpuPort (callVlanEntry request env s) = cpuPort s := by
    rw [cpuPort, only.psr, cpuPort]
  constructor
  · intro arrives
    have byte := ((callVlanEntry request env s).vlanTab request.vid).fid.isLt
    have fid := arrives.fid
    omega
  · intro narrow
    rw [Arrives, tab, words, cpu, Function.update_self, Function.update_self]
    exact newVlanEntry_arrives sent (cpuPort s) env.tv narrow

/-- Whether a request has arrived is seen in its entry only. -/
theorem Arrives.frame {request : RtuVlans} {s s' : RtuState}
    (tab : s'.vlanTab request.vid = s.vlanTab request.vid)
    (words : s'.fpga.vlan (BitVec.ofInt 32 request.vid) = s.fpga.vlan (BitVec.ofInt 32 request.vid))
    (psr : s'.fpga.psr = s.fpga.psr) : Arrives request s' ↔ Arrives request s := by
  rw [Arrives, Arrives, tab, words, cpuPort, cpuPort, psr]

/-! ### Runs of `config_rtud` -/

/-- The last request for a VID that is passed on. -/
def lastRequest (vid : Int) (requests : List RtuVlans) : Option RtuVlans :=
  requests.reverse.find? (·.vid = vid)

private theorem lastRequest_cons (vid : Int) (request : RtuVlans) (requests : List RtuVlans) :
    lastRequest vid (request :: requests) =
      (lastRequest vid requests).or (if request.vid = vid then some request else none) := by
  rw [lastRequest, List.reverse_cons, List.find?_append, ← lastRequest, List.find?_singleton]
  simp only [decide_eq_true_eq]

private theorem lastRequest_vid {vid : Int} {requests : List RtuVlans} {request : RtuVlans}
    (last : lastRequest vid requests = some request) : request.vid = vid := by
  simpa using List.find?_some last

private theorem passedOn_sent (calls : List (RtuVlans × RtudEnv)) (s : RtuState)
    (checked : ∀ call ∈ calls, call.1.Checked) :
    ∀ request ∈ passedOn calls s, PassedOn request := by
  induction calls generalizing s with
  | nil => exact fun _ member => absurd member List.not_mem_nil
  | cons call calls ih =>
    obtain ⟨first, others⟩ := List.forall_mem_cons.mp checked
    exact List.forall_mem_cons.mpr ⟨preserve_passedOn _ first, ih _ others⟩

/-- What the requests leave alone: the filtering database, and the VLANs without a request. -/
theorem configRtud_untouched (calls : List (RtuVlans × RtudEnv)) (s : RtuState)
    (checked : ∀ call ∈ calls, call.1.Checked) :
    (configRtud calls s).rtuHtab = s.rtuHtab ∧ (configRtud calls s).hwReqList = s.hwReqList ∧
      (configRtud calls s).fpga.psr = s.fpga.psr ∧
      ∀ vid : Int, 0 ≤ vid → vid < numVlans → lastRequest vid (passedOn calls s) = none →
        (configRtud calls s).vlanTab vid = s.vlanTab vid ∧
        (configRtud calls s).fpga.vlan (BitVec.ofInt 32 vid) =
          s.fpga.vlan (BitVec.ofInt 32 vid) := by
  induction calls generalizing s with
  | nil => exact ⟨rfl, rfl, rfl, fun _ _ _ _ => ⟨rfl, rfl⟩⟩
  | cons call calls ih =>
    obtain ⟨cur, env⟩ := call
    obtain ⟨first, others⟩ := List.forall_mem_cons.mp checked
    have sent : PassedOn (preserve (s.vlanTab cur.vid) cur) := preserve_passedOn _ first
    obtain ⟨tab, words, only⟩ := callVlanEntry_vlan sent env s
    obtain ⟨htab, reqs, psr, rest⟩ := ih (callVlanEntry (preserve (s.vlanTab cur.vid) cur) env s)
      others
    refine ⟨htab.trans only.rtuHtab, reqs.trans only.hwReqList, psr.trans only.psr, ?_⟩
    intro vid low high none
    rw [passedOn, lastRequest_cons, Option.or_eq_none_iff] at none
    -- another request leaves the entry and its words alone
    have other : (preserve (s.vlanTab cur.vid) cur).vid ≠ vid := fun same => by
      rw [if_pos same] at none
      cases none.2
    obtain ⟨kept, keptWords⟩ := rest vid low high none.1
    refine ⟨kept.trans ?_, keptWords.trans ?_⟩
    · rw [tab]
      exact Function.update_of_ne other.symm _ _
    · rw [words]
      exact Function.update_of_ne
        (fun same => other (ofInt_inj ⟨low, high⟩ sent.vid same).symm) _ _

private theorem configRtud_arrives (calls : List (RtuVlans × RtudEnv)) (s : RtuState)
    (checked : ∀ call ∈ calls, call.1.Checked) (vid : Int) (request : RtuVlans)
    (last : lastRequest vid (passedOn calls s) = some request) :
    Arrives request (configRtud calls s) ↔ request.fid < 256 := by
  induction calls generalizing s with
  | nil => cases last
  | cons call calls ih =>
    obtain ⟨cur, env⟩ := call
    obtain ⟨first, others⟩ := List.forall_mem_cons.mp checked
    have sent : PassedOn (preserve (s.vlanTab cur.vid) cur) := preserve_passedOn _ first
    rw [passedOn, lastRequest_cons] at last
    generalize stored : callVlanEntry (preserve (s.vlanTab cur.vid) cur) env s = s' at last
    rw [configRtud, stored]
    cases later : lastRequest vid (passedOn calls s') with
    | some found =>
      rw [later, Option.some_or] at last
      cases last
      exact ih s' others later
    | none =>
      -- this request is the last one, so what it stored stays
      rw [later, Option.none_or] at last
      split at last
      next this =>
        cases last
        subst this
        obtain ⟨_, _, psr, rest⟩ := configRtud_untouched calls s' others
        obtain ⟨kept, keptWords⟩ := rest _ sent.vid.1 sent.vid.2 later
        rw [Arrives.frame kept keptWords psr, ← stored]
        exact callVlanEntry_arrives sent env s
      next => cases last

/-! ### Filtering entries -/

/-- Creating an entry leaves the entries of every other FID as they are. -/
theorem createHtab_other {m : SwState} (packed : Packed m.rtuHtab) (mac : Mac) (vid : BitVec 16)
    (portMask dynamic : Word) (atExistingEntry : Int) (now : Word) {h b : Nat}
    (valid : m.rtuHtab.Valid h b) (other : (m.rtuHtab h b).fid ≠ (m.vlanTab vid.toNat).fid) :
    createHtab m mac vid portMask dynamic atExistingEntry now h b = m.rtuHtab h b := by
  rw [createHtab]
  cases plan : createPlan m mac vid portMask dynamic atExistingEntry with
  | keep => rfl
  | full => rfl
  | update i j =>
    obtain ⟨_, found, _, _⟩ := createPlan_update plan
    have fid := (htabSearch_some found).2.2
    refine set_other _ fun same => other ?_
    rw [same.1, same.2]
    exact fid.2
  | insert eaddr =>
    obtain ⟨_, _, _, bucket, _⟩ := createPlan_insert plan
    refine set_other _ fun same => ?_
    -- the bucket behind the valid ones is free
    rw [packed.valid_iff, same.1, same.2, bucket] at valid
    exact absurd valid (Nat.lt_irrefl _)

/-- In every later run of the filtering database, an entry that is created for the second VLAN
leaves the entries of the first one as they are. -/
def Isolated (s : RtuState) (vid₁ vid₂ : Int) : Prop :=
  ∀ (ops : List FdOp) (mac : Mac) (portMask dynamic : Word) (atExistingEntry : Int) (now : Word)
    (h b : Nat), (run fdStep s ops).rtuHtab.Valid h b →
    ((run fdStep s ops).rtuHtab h b).fid = (s.vlanTab vid₁).fid →
    (fdStep (run fdStep s ops)
      (.create mac (BitVec.ofInt 16 vid₂) portMask dynamic atExistingEntry now)).rtuHtab h b =
      (run fdStep s ops).rtuHtab h b

private theorem run_vlanTab (s : RtuState) (ops : List FdOp) (idle : s.hwReqList = []) :
    (run fdStep s ops).vlanTab = s.vlanTab := by
  have memory := congrArg SwState.vlanTab (run_toSwState s ops idle)
  refine memory.trans ?_
  refine run_preserves (fun m => m.vlanTab = s.vlanTab) fdSwStep ?_ _ ops rfl
  intro m op same
  exact same

private theorem isolated_of_fid {s : RtuState} (idle : s.hwReqList = []) (packed : Packed s.rtuHtab)
    {vid₁ vid₂ : Int} (inside : 0 ≤ vid₂ ∧ vid₂ < numVlans)
    (apart : (s.vlanTab vid₁).fid ≠ (s.vlanTab vid₂).fid) : Isolated s vid₁ vid₂ := by
  intro ops mac portMask dynamic atExistingEntry now h b valid fid
  have limit : numVlans = 4096 := rfl
  have index : ((BitVec.ofInt 16 vid₂).toNat : Int) = vid₂ := by
    rw [BitVec.toNat_ofInt]
    omega
  have tab := run_vlanTab s ops idle
  have memory := run_toSwState s ops idle
  have down : Packed (run fdStep s ops).rtuHtab := by
    rw [memory]
    exact run_packed _ ops packed
  rw [fdStep_toSwState _ _ (run_idle s ops idle)]
  refine createHtab_other down mac _ portMask dynamic atExistingEntry now valid ?_
  rw [fid, tab, index]
  exact apart

/-- Requests of one call of `wrs_vlans` arrive unchanged in the table and in the hardware, and
VLANs with different FIDs keep their filtering entries apart, exactly if no FID is above 255. -/
theorem vlans_arrive_iff (poly : BitVec 16) (aging : Word) (epMac : Nat → Mac) (s₀ : RtuState)
    (idle : s₀.hwReqList = []) (before : List RtudOp) (calls : List (RtuVlans × RtudEnv))
    (accepted : Accepted (calls.map Prod.fst)) :
    let s := run rtudStep (rtuFdInit poly aging epMac s₀) before
    ((∀ vid request, lastRequest vid (passedOn calls s) = some request →
        Arrives request (configRtud calls s)) ∧
      ∀ vid₁ vid₂ request₁ request₂, lastRequest vid₁ (passedOn calls s) = some request₁ →
        lastRequest vid₂ (passedOn calls s) = some request₂ → request₁.fid ≠ request₂.fid →
        Isolated (configRtud calls s) vid₁ vid₂) ↔
    ∀ vid request, lastRequest vid (passedOn calls s) = some request → request.fid < 256 := by
  intro s
  have checked : ∀ call ∈ calls, call.1.Checked := fun call member =>
    accepted_checked accepted call.1 (List.mem_map_of_mem member)
  constructor
  · rintro ⟨arrives, _⟩ vid request last
    exact (configRtud_arrives calls s checked vid request last).mp (arrives vid request last)
  · intro narrow
    have arrives : ∀ vid request, lastRequest vid (passedOn calls s) = some request →
        Arrives request (configRtud calls s) := fun vid request last =>
      (configRtud_arrives calls s checked vid request last).mpr (narrow vid request last)
    refine ⟨arrives, fun vid₁ vid₂ request₁ request₂ last₁ last₂ differ => ?_⟩
    -- the tables of the daemon are never touched by the calls
    obtain ⟨waiting, packed⟩ := rtud_packed poly aging epMac s₀ before idle
    obtain ⟨htab, reqs, _, _⟩ := configRtud_untouched calls s checked
    have fid₁ := (arrives vid₁ request₁ last₁).fid
    have fid₂ := (arrives vid₂ request₂ last₂).fid
    rw [lastRequest_vid last₁] at fid₁
    rw [lastRequest_vid last₂] at fid₂
    refine isolated_of_fid (reqs.trans waiting) (by rw [htab]; exact packed) ?_ fun same => ?_
    · have member := List.mem_reverse.mp (List.mem_of_find?_eq_some last₂)
      have vid := (passedOn_sent calls s checked request₂ member).vid
      rw [lastRequest_vid last₂] at vid
      exact vid
    · rw [same] at fid₁
      exact differ (fid₁.symm.trans fid₂)

/-- `--rvid 1 --rfid 1 --rvid 2 --rfid` with the FID of the second VLAN. -/
def twoVlans (fid : List Char) : List (RtuOption × List Char) :=
  [(.vid, ['1']), (.fid, ['1']), (.vid, ['2']), (.fid, fid)]

def noEnv : RtudEnv := ⟨0, (0, 0), fun _ => ⟨0, 0, 0, 0, 0, 0⟩⟩

/-- The requests of the two VLANs, the second one first. -/
def twoRequests (fid : Int) : List RtuVlans :=
  [⟨2, fid, 0, 0, 0, 0, 0, validVid ||| validFid⟩, ⟨1, 1, 0, 0, 0, 0, 0, validVid ||| validFid⟩]

private theorem twoVlans_accepted :
    rtuOptions (twoVlans ['0', 'x', 'f', 'f']) [] = some (twoRequests 255) ∧
    rtuOptions (twoVlans ['2', '5', '7']) [] = some (twoRequests 257) := by
  decide

/-- Two VLANs of one command line. -/
theorem vlans_arrive_two :
    let calls := (twoRequests 255).map fun cur => (cur, noEnv)
    let s := run rtudStep (rtuFdInit 0x1021 300 noEnv.epMac firstStartState) []
    ((∀ vid request, lastRequest vid (passedOn calls s) = some request →
        Arrives request (configRtud calls s)) ∧
      ∀ vid₁ vid₂ request₁ request₂, lastRequest vid₁ (passedOn calls s) = some request₁ →
        lastRequest vid₂ (passedOn calls s) = some request₂ → request₁.fid ≠ request₂.fid →
        Isolated (configRtud calls s) vid₁ vid₂) ↔
    ∀ vid request, lastRequest vid (passedOn calls s) = some request → request.fid < 256 :=
  vlans_arrive_iff 0x1021 300 noEnv.epMac firstStartState rfl [] _
    (rtuOptions_accepted .none twoVlans_accepted.1)

/-- The memory after FIDs 1 and 257 were requested. -/
def sharedState : RtuState :=
  configRtud ((twoRequests 257).map fun cur => (cur, noEnv)) firstStartState

/-- A MAC address is learned on port 0 for the first VLAN and then on port 1 for the second. -/
def learnFirst : FdOp := .create macA 1 1 rtuEntryTypeDynamic overrideExisting 0
def learnSecond : FdOp := .create macA 2 2 rtuEntryTypeDynamic overrideExisting 0

/-- The slot of the address, before and after it moves. -/
def Moves (s : RtuState) (h b : Nat) : Prop :=
  let t := (run fdSwStep s.toSwState [learnFirst]).rtuHtab
  let t' := (run fdSwStep s.toSwState ([learnFirst] ++ [learnSecond])).rtuHtab
  (s.vlanTab 1).fid = (s.vlanTab 2).fid ∧ t.Valid h b ∧ (t h b).fid = (s.vlanTab 1).fid ∧
    (t h b).portMaskDst ≠ (t' h b).portMaskDst

private theorem Moves.not_isolated {s : RtuState} {h b : Nat} (moves : Moves s h b)
    (idle : s.hwReqList = []) : ¬Isolated s 1 2 := by
  obtain ⟨_, valid, fid, moved⟩ := moves
  intro isolated
  have first := run_toSwState s [learnFirst] idle
  have both := run_toSwState s ([learnFirst] ++ [learnSecond]) idle
  rw [run_concat] at both
  have kept := isolated [learnFirst] macA 2 rtuEntryTypeDynamic overrideExisting 0 h b
    (by rw [first]; exact valid) (by rw [first]; exact fid)
  have same : (run fdSwStep s.toSwState ([learnFirst] ++ [learnSecond])).rtuHtab h b =
      (run fdSwStep s.toSwState [learnFirst]).rtuHtab h b := by
    rw [← both, ← first]
    exact kept
  exact moved (by rw [same])

private theorem sharedState_idle : sharedState.hwReqList = [] := by
  have checked := accepted_checked (rtuOptions_accepted .none twoVlans_accepted.2)
  have untouched := configRtud_untouched ((twoRequests 257).map fun cur => (cur, noEnv))
    firstStartState fun call member => checked call.1 (by
      obtain ⟨cur, among, rfl⟩ := List.mem_map.mp member
      exact among)
  rw [sharedState, untouched.2.1]
  rfl

private theorem sharedState_moves : (sharedState.vlanTab 2).fid = 1 ∧ Moves sharedState 62 0 := by
  simp only [Moves]
  decide +kernel

/-- FID 257 becomes FID 1, and the second VLAN updates an entry of the first. -/
theorem vlans_share_entries :
    rtuOptions (twoVlans ['2', '5', '7']) [] = some (twoRequests 257) ∧
      (sharedState.vlanTab 2).fid = 1 ∧ ¬Isolated sharedState 1 2 :=
  ⟨twoVlans_accepted.2, sharedState_moves.1, sharedState_moves.2.not_isolated sharedState_idle⟩

end WrSwitch.Tools
