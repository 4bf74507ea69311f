import WrSwitch.MiniRpc.Types
import Mathlib.Data.List.Basic

/-!
# Exported procedures

`minipc_export`, `minipc_unexport` and `mpc_handle_client` of `minipc-server.c`, and
`mpc_free_flist` of `minipc-core.c`: the list of exported descriptors and the dispatch of
a request by its name.
-/
namespace WrSwitch.MiniRpc

open Machine

variable {ι φ σ : Type}

/-! ### The list of exported descriptors -/

/-- What `container_of` may be handed: a node from `calloc`, or a variable of the function
that is running. -/
inductive Addr
  | heap (n : Nat)
  | stack
deriving DecidableEq, Repr

/-- `struct mpc_flist` with the address `calloc` returned for it; `pd` is the pointer to the
descriptor. -/
structure MpcFlist (ι : Type) where
  addr : Nat
  pd : ι
deriving DecidableEq, Repr

def mpcFreeFlist (link : List (MpcFlist ι)) (flist : Addr) : List (MpcFlist ι) :=
  link.eraseP fun node => decide (Addr.heap node.addr = flist)

/-- `minipc_export`; `calloc` is the address the allocator returns, if any. -/
def minipcExport (pd : ι) (calloc : Option Nat) (link : List (MpcFlist ι)) :
    Int × List (MpcFlist ι) :=
  match calloc with
  | none => (-1, link)
  | some flist => (0, ⟨flist, pd⟩ :: link)

/-- `minipc_unexport`. The node it frees is `container_of(&pd, struct mpc_flist, pd)`, and `pd`
there is the parameter of the function and the first member of the structure. -/
def minipcUnexport [DecidableEq ι] (pd : ι) (link : List (MpcFlist ι)) :
    Int × List (MpcFlist ι) :=
  match link.find? fun flist => decide (flist.pd = pd) with
  | none => (-1, link)
  | some _ => (0, mpcFreeFlist link .stack)

/-- No node of the list lies on the stack. -/
theorem mpcFreeFlist_stack (link : List (MpcFlist ι)) : mpcFreeFlist link .stack = link :=
  List.eraseP_of_forall_not fun node _ => by simp

private theorem minipcUnexport_link [DecidableEq ι] (pd : ι) (link : List (MpcFlist ι)) :
    (minipcUnexport pd link).2 = link := by
  simp only [minipcUnexport]
  split
  · rfl
  · exact mpcFreeFlist_stack link

private theorem minipcUnexport_found [DecidableEq ι] (pd : ι) (link : List (MpcFlist ι))
    (listed : ∃ node ∈ link, node.pd = pd) : (minipcUnexport pd link).1 = 0 := by
  obtain ⟨node, member, points⟩ := listed
  simp only [minipcUnexport]
  split
  next absent =>
    have other := List.find?_eq_none.mp absent node member
    simp [points] at other
  next => rfl

/-! ### Dispatch -/

/-- What a handler leaves behind: its return value, `errno`, the bytes of the reply and the
state of the server. -/
structure Outcome (σ : Type) where
  ret : Int
  errno : Word
  val : Mem
  state : σ

/-- What the server did with a request. -/
structure Served (φ σ : Type) where
  /-- the handler that was called, if any -/
  invoked : Option φ
  reply : MpcRepPacket
  state : σ

/-- The reply that reports an error number; `val` is what the reply held before. -/
def errorReply (errno : Word) (val : Mem) : MpcRepPacket :=
  ⟨minipcArgEncode .error 4, storeBits errno ++ val.drop 4⟩

/-- The reply to a call, from the declared type of its return value. -/
def callReply (retval : Word) (out : Outcome σ) : MpcRepPacket :=
  if out.ret < 0 then errorReply out.errno out.val
  else if minipcGetAtype retval = some .string then
    ⟨minipcArgEncode .string ((strlen out.val + 1 + 3) / 4 * 4), out.val⟩
  else ⟨retval, out.val⟩

variable (pds : ι → MinipcPd φ) (call : MinipcPd φ → Mem → Mem → σ → Outcome σ)

/-- The name of a descriptor as `strcmp` sees it. -/
def pdName (pd : ι) : Mem := cstr (pds pd).name.bytes

/-- The search for the function a request names. -/
def mpcLookup (link : List (MpcFlist ι)) (pIn : Mem) : Option ι :=
  (link.find? fun flist => decide (cstr pIn = pdName pds flist.pd)).map MpcFlist.pd

/-- `mpc_handle_client` from the search for the function to the complete reply. -/
def mpcHandleClient (link : List (MpcFlist ι)) (pIn val : Mem) (s : σ) : Served φ σ :=
  match mpcLookup pds link pIn with
  | none => ⟨none, errorReply eopnotsupp val, s⟩
  | some pd =>
    let out := call (pds pd) (pIn.drop minipcMaxName) val s
    ⟨some (pds pd).f, callReply (pds pd).retval out, out.state⟩

/-- The function that runs is the one that the lookup finds. -/
theorem handleClient_invoked (link : List (MpcFlist ι)) (pIn val : Mem) (s : σ) :
    (mpcHandleClient pds call link pIn val s).invoked =
      (mpcLookup pds link pIn).map fun pd => (pds pd).f := by
  simp only [mpcHandleClient]
  split
  next unknown => simp [unknown]
  next pd known => simp [known]

/-- A descriptor of that name in front is found. -/
theorem mpcLookup_cons_same (link : List (MpcFlist ι)) (addr : Nat) (pd : ι) (pIn : Mem)
    (same : cstr pIn = pdName pds pd) : mpcLookup pds (⟨addr, pd⟩ :: link) pIn = some pd := by
  simp [mpcLookup, same]

/-- A descriptor of another name in front is passed over. -/
theorem mpcLookup_cons_other (link : List (MpcFlist ι)) (addr : Nat) (pd : ι) (pIn : Mem)
    (other : cstr pIn ≠ pdName pds pd) :
    mpcLookup pds (⟨addr, pd⟩ :: link) pIn = mpcLookup pds link pIn := by
  simp [mpcLookup, other]

/-- The packet `minipc_call` sends carries the name of the descriptor it is called with. -/
theorem cstr_packet (pd : ι) (args : Mem) :
    cstr ((pds pd).name.bytes ++ args) = pdName pds pd :=
  cstr_append _ _ (pds pd).name.terminated

/-! ### Histories -/

/-- A server link with the descriptors exported and not unexported since. -/
structure ExportState (ι : Type) where
  flist : List (MpcFlist ι)
  exported : List ι

/-- A new link. -/
def ExportState.init : ExportState ι := ⟨[], []⟩

inductive ExportCall (ι : Type)
  | minipcExport (pd : ι) (calloc : Option Nat)
  | minipcUnexport (pd : ι)

def exportStep [DecidableEq ι] (s : ExportState ι) : ExportCall ι → ExportState ι
  | .minipcExport pd calloc =>
    let (ret, flist) := minipcExport pd calloc s.flist
    ⟨flist, if ret = 0 then pd :: s.exported else s.exported⟩
  | .minipcUnexport pd =>
    let (ret, flist) := minipcUnexport pd s.flist
    ⟨flist, if ret = 0 then s.exported.erase pd else s.exported⟩

/-- A request is served as the history of exports says: one that carries the name of an
exported descriptor by the handler of that descriptor, any other one by an error. -/
structure Dispatches (s : ExportState ι) : Prop where
  own : ∀ pd ∈ s.exported, ∀ pIn val st, cstr pIn = pdName pds pd →
    (mpcHandleClient pds call s.flist pIn val st).invoked = some (pds pd).f
  unknown : ∀ pIn val st, (∀ pd ∈ s.exported, cstr pIn ≠ pdName pds pd) →
    mpcHandleClient pds call s.flist pIn val st = ⟨none, errorReply eopnotsupp val, st⟩

/-- A descriptor is exported only beside descriptors of other names or of the same handler,
and unexported only when another exported descriptor keeps its name in use. -/
def NamesKept [DecidableEq ι] (s : ExportState ι) : ExportCall ι → Prop
  | .minipcExport pd calloc =>
    calloc ≠ none → ∀ q ∈ s.exported, pdName pds q = pdName pds pd → (pds q).f = (pds pd).f
  | .minipcUnexport pd => pd ∈ s.exported → ∃ q ∈ s.exported.erase pd, pdName pds q = pdName pds pd

/-- Every exported descriptor has a node. -/
def Listed (s : ExportState ι) : Prop := ∀ pd ∈ s.exported, ∃ node ∈ s.flist, node.pd = pd

private theorem listed_step [DecidableEq ι] (s : ExportState ι) (e : ExportCall ι)
    (listed : Listed s) :
    Listed (exportStep s e) := by
  cases e with
  | minipcExport pd calloc =>
    cases calloc with
    | none => exact listed
    | some addr =>
      intro q member
      simp only [exportStep, minipcExport, if_true, List.mem_cons] at member ⊢
      rcases member with rfl | old
      · exact ⟨⟨addr, q⟩, .inl rfl, rfl⟩
      · obtain ⟨node, present, points⟩ := listed q old
        exact ⟨node, .inr present, points⟩
  | minipcUnexport pd =>
    intro q member
    simp only [exportStep, minipcUnexport_link] at member ⊢
    split at member
    · exact listed q (List.mem_of_mem_erase member)
    · exact listed q member

/-! ### Steps -/

variable {pds call}

private theorem export_dispatches [DecidableEq ι] {s : ExportState ι} {pd : ι} {addr : Nat}
    (dispatches : Dispatches pds call s)
    (alike : ∀ q ∈ s.exported, pdName pds q = pdName pds pd → (pds q).f = (pds pd).f) :
    Dispatches pds call (exportStep s (.minipcExport pd (some addr))) := by
  simp only [exportStep, minipcExport, if_true]
  constructor
  · intro q member pIn val st carries
    -- the new descriptor stands in front of those of the same name
    by_cases same : cstr pIn = pdName pds pd
    · rw [handleClient_invoked, mpcLookup_cons_same pds _ _ _ _ same, Option.map_some]
      rcases List.mem_cons.mp member with rfl | old
      · rfl
      · rw [alike q old (carries.symm.trans same)]
    · have old : q ∈ s.exported := by
        rcases List.mem_cons.mp member with rfl | old
        · exact absurd carries same
        · exact old
      rw [handleClient_invoked, mpcLookup_cons_other pds _ _ _ _ same, ← handleClient_invoked]
      exact dispatches.own q old pIn val st carries
  · intro pIn val st foreign
    have other := foreign pd List.mem_cons_self
    have before := dispatches.unknown pIn val st fun q old =>
      foreign q (List.mem_cons_of_mem _ old)
    simpa only [mpcHandleClient, mpcLookup_cons_other pds _ _ _ _ other] using before

/-- The new node comes first, so it takes over the requests for its name. -/
theorem export_required [DecidableEq ι] {s : ExportState ι} {pd : ι} {addr : Nat} (st : σ)
    (dispatches : Dispatches pds call (exportStep s (.minipcExport pd (some addr)))) :
    ∀ q ∈ s.exported, pdName pds q = pdName pds pd → (pds q).f = (pds pd).f := by
  intro q old same
  have own := dispatches.own q
  simp only [exportStep, minipcExport, if_true] at own
  have invoked := own (List.mem_cons_of_mem _ old) (pds q).name.bytes [] st rfl
  rw [handleClient_invoked, mpcLookup_cons_same pds _ _ _ _ same, Option.map_some] at invoked
  exact (Option.some.inj invoked).symm

private theorem unexport_exported [DecidableEq ι] {s : ExportState ι} {pd : ι} (listed : Listed s) :
    exportStep s (.minipcUnexport pd) = ⟨s.flist, s.exported.erase pd⟩ := by
  simp only [exportStep, minipcUnexport_link]
  by_cases member : pd ∈ s.exported
  · rw [minipcUnexport_found pd s.flist (listed pd member), if_pos rfl]
  · rw [List.erase_of_not_mem member, ite_self]

/-- `minipc_unexport` leaves the list as it is, so the name must stay in use. -/
theorem unexport_dispatches [DecidableEq ι] {s : ExportState ι} {pd : ι} (listed : Listed s)
    (dispatches : Dispatches pds call s)
    (kept : pd ∈ s.exported → ∃ q ∈ s.exported.erase pd, pdName pds q = pdName pds pd) :
    Dispatches pds call (exportStep s (.minipcUnexport pd)) := by
  rw [unexport_exported listed]
  constructor
  · intro q member
    exact dispatches.own q (List.mem_of_mem_erase member)
  · intro pIn val st foreign
    refine dispatches.unknown pIn val st ?_
    intro q member carries
    by_cases same : q = pd
    · subst same
      obtain ⟨r, remains, name⟩ := kept member
      exact foreign r remains (carries.trans name.symm)
    · exact foreign q ((List.mem_erase_of_ne same).mpr member) carries

private theorem unexport_required [DecidableEq ι] {s : ExportState ι} {pd : ι} (st : σ)
    (listed : Listed s) (before : Dispatches pds call s)
    (after : Dispatches pds call (exportStep s (.minipcUnexport pd))) (member : pd ∈ s.exported) :
    ∃ q ∈ s.exported.erase pd, pdName pds q = pdName pds pd := by
  rw [unexport_exported listed] at after
  by_contra gone
  push Not at gone
  have refused := after.unknown (pds pd).name.bytes [] st fun q remains => (gone q remains).symm
  have invoked := before.own pd member (pds pd).name.bytes [] st rfl
  rw [refused] at invoked
  cases invoked

private theorem dispatches_step [DecidableEq ι] (s : ExportState ι) (e : ExportCall ι)
    (listed : Listed s) (dispatches : Dispatches pds call s) (kept : NamesKept pds s e) :
    Dispatches pds call (exportStep s e) := by
  cases e with
  | minipcExport pd calloc =>
    cases calloc with
    | none => exact dispatches
    | some addr => exact export_dispatches dispatches (kept (Option.some_ne_none addr))
  | minipcUnexport pd => exact unexport_dispatches listed dispatches kept

private theorem namesKept_required [DecidableEq ι] [Nonempty σ] (s : ExportState ι)
    (e : ExportCall ι) (listed : Listed s) (before : Dispatches pds call s)
    (after : Dispatches pds call (exportStep s e)) : NamesKept pds s e := by
  obtain ⟨st⟩ := ‹Nonempty σ›
  cases e with
  | minipcExport pd calloc =>
    intro allocated
    obtain ⟨addr, rfl⟩ := Option.ne_none_iff_exists'.mp allocated
    exact export_required st after
  | minipcUnexport pd => exact unexport_required st listed before after

/-- The histories after which requests are always served as the history says. -/
theorem dispatches_iff [DecidableEq ι] [Nonempty σ] (calls : List (ExportCall ι)) :
    (∀ k, Dispatches pds call (run exportStep .init (calls.take k))) ↔
      Along (NamesKept pds) exportStep .init calls := by
  refine run_good_iff (fun s => Listed s ∧ Dispatches pds call s) _ (fun _ inv => inv.2) ?_ ?_ ?_
    (Along.of_forall exportStep .init fun _ _ => trivial)
  · intro s e inv _ kept
    exact ⟨listed_step s e inv.1, dispatches_step s e inv.1 inv.2 kept⟩
  · intro s e inv _ after
    exact namesKept_required s e inv.1 inv.2 after
  · refine ⟨?_, ?_, ?_⟩
    · intro pd impossible
      cases impossible
    · intro pd impossible
      cases impossible
    · intro pIn val st _
      rfl

end WrSwitch.MiniRpc
