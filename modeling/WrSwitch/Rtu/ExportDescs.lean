import WrSwitch.MiniRpc.Export

/-!
# The exports of the daemon

The descriptors of `rtud_exports.h` and their registration in `rtud_init_exports`.
-/
namespace WrSwitch.Rtu

open Machine MiniRpc

/-! ### Descriptors -/

/-- The `rtud_export_*` objects. -/
inductive RtudExport
  | clearEntries | addEntry | removeEntry | learningProcess | unrec | vlanEntry | hpMask
  | mirror | portCfg | portCfgClearAll
deriving DecidableEq, Repr

/-- The `rtudexp_*` functions. -/
inductive RtudExp
  | clearEntries | addEntry | removeEntry | learningProcess | unrec | vlanEntry | hpMask
  | mirror | portCfg | portCfgClearAll
deriving DecidableEq, Repr

/-- `MINIPC_ARG_ENCODE(MINIPC_ATYPE_INT, int)` -/
def argInt : Word := minipcArgEncode .int 4

/-- `MINIPC_ARG_ENCODE(MINIPC_ATYPE_STRING, char *)` on the 32-bit CPU of the switch. -/
def argString : Word := minipcArgEncode .string 4

/-- The descriptors, with the function that `MINIPC_EXP_FUNC` stores in each of them. -/
def rtudPd : RtudExport → MinipcPd RtudExp
  | .clearEntries =>
    { f := .clearEntries
      name := .ofString "clear_entries" (by decide)
      retval := argInt
      args := [argInt, minipcArgEnd] }
  | .addEntry =>
    { f := .addEntry
      name := .ofString "add_entry" (by decide)
      retval := argInt
      args := [argString, argInt, argInt, argInt, minipcArgEnd] }
  | .removeEntry =>
    { f := .removeEntry
      name := .ofString "remove_entry" (by decide)
      retval := argInt
      args := [argString, argInt, argInt, minipcArgEnd] }
  | .learningProcess =>
    { f := .learningProcess
      name := .ofString "learning_process" (by decide)
      retval := argInt
      args := [argInt, argInt, argInt, minipcArgEnd] }
  | .unrec =>
    { f := .unrec
      name := .ofString "unrec" (by decide)
      retval := argInt
      args := [argInt, argInt, argInt, minipcArgEnd] }
  | .vlanEntry =>
    { f := .vlanEntry
      name := .ofString "vlan_entry" (by decide)
      retval := argInt
      args := [argInt, argInt, argInt, argInt, argInt, argInt, argInt, minipcArgEnd] }
  | .hpMask =>
    { f := .hpMask
      name := .ofString "hp_mask" (by decide)
      retval := argInt
      args := [argInt, argInt, minipcArgEnd] }
  | .mirror =>
    { f := .mirror
      name := .ofString "mirror" (by decide)
      retval := argInt
      args := [argInt, argInt, argInt, argInt, minipcArgEnd] }
  | .portCfg =>
    { f := .portCfg
      name := .ofString "port_cfg" (by decide)
      retval := argInt
      args := [argInt, argInt, argInt, argInt, argInt, argInt, argInt, minipcArgEnd] }
  | .portCfgClearAll =>
    { f := .portCfgClearAll
      -- the header gives this one the name of the first descriptor
      name := .ofString "clear_entries" (by decide)
      retval := argInt
      args := [minipcArgEnd] }

/-- The order of the `MINIPC_EXP_FUNC` lines before the last one. -/
def rtudFirstExports : List RtudExport :=
  [.clearEntries, .addEntry, .removeEntry, .learningProcess, .unrec, .vlanEntry, .hpMask,
    .mirror, .portCfg]

/-- `rtud_init_exports`, which goes on after an export that fails; `calloc` tells for each
descriptor what the allocator returns. -/
def rtudInitExports (calloc : RtudExport → Option Nat) : ExportState RtudExport :=
  run exportStep .init
    ((rtudFirstExports ++ [RtudExport.portCfgClearAll]).map fun e => .minipcExport e (calloc e))

/-! ### Dispatch -/

private theorem rtudPd_names : ∀ e ∈ rtudFirstExports, ∀ q ∈ rtudFirstExports,
    pdName rtudPd q = pdName rtudPd e → q = e := by
  decide

private theorem rtudPd_names_last : ∀ e ∈ rtudFirstExports,
    pdName rtudPd e = pdName rtudPd .portCfgClearAll ↔ e = .clearEntries := by
  decide

private theorem mem_rtudFirstExports (e : RtudExport) :
    e ∈ rtudFirstExports ↔ e ≠ .portCfgClearAll := by
  cases e <;> decide

/-- Exports put their nodes in front, one after the other. -/
theorem run_exports_flist (calloc : RtudExport → Option Nat) (es : List RtudExport)
    (s : ExportState RtudExport) :
    (run exportStep s (es.map fun e => .minipcExport e (calloc e))).flist =
      (es.filterMap fun e => (calloc e).map fun addr => ⟨addr, e⟩).reverse ++ s.flist := by
  induction es generalizing s with
  | nil => rfl
  | cons e es ih =>
    rw [List.map_cons, run_cons, ih]
    cases allocated : calloc e with
    | none => simp [exportStep, minipcExport, allocated]
    | some addr => simp [exportStep, minipcExport, allocated]

/-- The list before the last export. -/
def firstFlist (calloc : RtudExport → Option Nat) : List (MpcFlist RtudExport) :=
  (rtudFirstExports.filterMap fun e => (calloc e).map fun addr => ⟨addr, e⟩).reverse

private theorem rtudInitExports_flist (calloc : RtudExport → Option Nat) :
    (rtudInitExports calloc).flist =
      ((calloc .portCfgClearAll).map fun addr => ⟨addr, .portCfgClearAll⟩).toList ++
        firstFlist calloc := by
  rw [rtudInitExports, run_exports_flist, List.filterMap_append, List.reverse_append]
  cases last : calloc .portCfgClearAll with
  | none => simp [ExportState.init, firstFlist, last]
  | some addr => simp [ExportState.init, firstFlist, last]

private theorem mpcLookup_of_unique {ι φ : Type} (pds : ι → MinipcPd φ) (link : List (MpcFlist ι))
    (pd : ι) (pIn : Mem) (carries : cstr pIn = pdName pds pd) (listed : ∃ node ∈ link, node.pd = pd)
    (unique : ∀ node ∈ link, pdName pds node.pd = pdName pds pd → node.pd = pd) :
    mpcLookup pds link pIn = some pd := by
  induction link with
  | nil =>
    obtain ⟨_, impossible, _⟩ := listed
    cases impossible
  | cons node link ih =>
    by_cases same : cstr pIn = pdName pds node.pd
    · rw [mpcLookup_cons_same pds _ node.addr node.pd _ same,
        unique node List.mem_cons_self (same.symm.trans carries)]
    · rw [mpcLookup_cons_other pds _ node.addr node.pd _ same]
      refine ih ?_ fun other member => unique other (List.mem_cons_of_mem _ member)
      obtain ⟨found, member, points⟩ := listed
      rcases List.mem_cons.mp member with rfl | later
      · exact absurd (points ▸ carries) same
      · exact ⟨found, later, points⟩

private theorem lookup_first (calloc : RtudExport → Option Nat) (e : RtudExport)
    (first : e ∈ rtudFirstExports) (allocated : calloc e ≠ none) (pIn : Mem)
    (carries : cstr pIn = pdName rtudPd e) : mpcLookup rtudPd (firstFlist calloc) pIn = some e := by
  apply mpcLookup_of_unique rtudPd _ e pIn carries
  · obtain ⟨addr, found⟩ := Option.ne_none_iff_exists'.mp allocated
    refine ⟨⟨addr, e⟩, ?_, rfl⟩
    rw [firstFlist, List.mem_reverse, List.mem_filterMap]
    exact ⟨e, first, by simp [found]⟩
  · intro node member same
    rw [firstFlist, List.mem_reverse, List.mem_filterMap] at member
    obtain ⟨q, listed, made⟩ := member
    obtain ⟨addr, _, rfl⟩ := Option.map_eq_some_iff.mp made
    exact rtudPd_names e first q listed same

/-- The handler that a call on a descriptor runs after `rtud_init_exports`. -/
theorem rtud_lookup (calloc : RtudExport → Option Nat) (e : RtudExport)
    (allocated : calloc e ≠ none) (args : Mem) :
    mpcLookup rtudPd (rtudInitExports calloc).flist ((rtudPd e).name.bytes ++ args) =
      some (if e = .clearEntries ∧ calloc .portCfgClearAll ≠ none then .portCfgClearAll else e) := by
  have carries := cstr_packet rtudPd e args
  rw [rtudInitExports_flist]
  -- the last export stands in front of the list only when it could be allocated
  cases last : calloc .portCfgClearAll with
  | none =>
    have first : e ∈ rtudFirstExports := by
      rw [mem_rtudFirstExports]
      rintro rfl
      exact allocated last
    simpa using lookup_first calloc e first allocated _ carries
  | some addr =>
    simp only [Option.map_some, Option.toList_some, List.singleton_append]
    -- two exports carry the same name, and the later one is found
    by_cases taken : pdName rtudPd e = pdName rtudPd .portCfgClearAll
    · rw [mpcLookup_cons_same _ _ _ _ _ (carries.trans taken)]
      by_cases first : e ∈ rtudFirstExports
      · simp [(rtudPd_names_last e first).mp taken]
      · have equal : e = .portCfgClearAll := by simpa [mem_rtudFirstExports] using first
        simp [equal]
    · have first : e ∈ rtudFirstExports := by
        rw [mem_rtudFirstExports]
        rintro rfl
        exact taken rfl
      have other : e ≠ .clearEntries := fun equal => taken ((rtudPd_names_last e first).mpr equal)
      rw [mpcLookup_cons_other _ _ _ _ _ (carries ▸ taken)]
      simpa [other] using lookup_first calloc e first allocated _ carries

/-- Requests are served as the history of exports says exactly while no two handlers share a
name and no name in use loses its last descriptor; and after `rtud_init_exports` a call
reaches its own handler exactly if it is not `clear_entries` with the last export done. -/
theorem exports_dispatch {ι φ σ : Type} [DecidableEq ι] (pds : ι → MinipcPd φ)
    (call : MinipcPd φ → Mem → Mem → σ → Outcome σ) (st₀ : σ) (calls : List (ExportCall ι)) :
    ((∀ k, Dispatches pds call (run exportStep .init (calls.take k))) ↔
      Along (NamesKept pds) exportStep .init calls) ∧
    ∀ (calloc : RtudExport → Option Nat) (e : RtudExport), calloc e ≠ none →
      ∀ (rtudCall : MinipcPd RtudExp → Mem → Mem → σ → Outcome σ) (args val : Mem) (st : σ),
        (mpcHandleClient rtudPd rtudCall (rtudInitExports calloc).flist
            ((rtudPd e).name.bytes ++ args) val st).invoked = some (rtudPd e).f ↔
          ¬(e = .clearEntries ∧ calloc .portCfgClearAll ≠ none) := by
  have : Nonempty σ := ⟨st₀⟩
  refine ⟨dispatches_iff calls, ?_⟩
  intro calloc e allocated rtudCall args val st
  rw [handleClient_invoked, rtud_lookup calloc e allocated args, Option.map_some]
  split
  next taken =>
    rw [taken.1]
    simp [rtudPd, taken.2]
  next free => simp [free]

/-- An exported and then unexported descriptor still has its handler called, and a call of
`clear_entries` clears the port configuration. -/
theorem exports_misdispatch :
    ¬Dispatches rtudPd (fun _ _ val _ => ⟨0, 0, val, ()⟩)
        (run exportStep .init [.minipcExport .addEntry (some 0), .minipcUnexport .addEntry]) ∧
      (mpcHandleClient rtudPd (fun _ _ val _ => ⟨0, 0, val, ()⟩)
        (rtudInitExports fun _ => some 0).flist (rtudPd .clearEntries).name.bytes [] ()).invoked =
          some .portCfgClearAll := by
  refine ⟨?_, by decide⟩
  intro dispatches
  have refused := dispatches.unknown (rtudPd .addEntry).name.bytes [] () (by decide)
  have invoked := congrArg Served.invoked refused
  revert invoked
  decide

end WrSwitch.Rtu
