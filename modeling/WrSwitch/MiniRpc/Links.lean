import Mathlib.Logic.Function.Basic
import WrSwitch.Machine.Chain
import WrSwitch.MiniRpc.Export

/-!
# The list of links

`__minipc_link_create` and `minipc_close` of `minipc-core.c`, which keep all links of a process
in a list. No link ever leaves the list: closing works as long as nothing is closed.
-/
namespace WrSwitch.MiniRpc

open Machine

variable {ι : Type}

/-! ### Links in memory -/

def mpcMagic : Word := 0xc0ffee99

/-- `struct mpc_link`, as far as its bookkeeping goes. -/
structure MpcLink (ι : Type) where
  fd : Int
  magic : Word
  flags : Word
  nextl : Option Nat
  flist : List (MpcFlist ι)

/-- The memory of a process. -/
structure LinkHeap (ι : Type) where
  /-- `__mpc_base` -/
  base : Option Nat
  mem : Nat → MpcLink ι
  /-- the links that were ever allocated, which bounds the loops over a list without cycles -/
  allocated : Nat
  /-- the links that were created and not closed -/
  opened : List Nat
  /-- the nodes of export lists that were freed -/
  freed : List Nat

def LinkHeap.store (s : LinkHeap ι) (link : Nat) (content : MpcLink ι) : LinkHeap ι :=
  { s with mem := Function.update s.mem link content }

/-- What becomes of a new channel. -/
inductive Channel
  /-- `__minipc_memlink_create`, with the flag that it sets -/
  | memlink (flag : Option Word)
  /-- `socket`, and whether `bind` and `listen` or `connect` succeed -/
  | socket (fd : Int) (ok : Bool)

/-- `__minipc_link_create` after `calloc`: what is in the link, if it succeeds. -/
def setupLink (flags : Word) (channel : Channel) : Option (MpcLink ι) :=
  match channel with
  | .memlink none => none
  | .memlink (some flag) => some ⟨0, mpcMagic, flags ||| flag, none, []⟩
  | .socket fd ok => if fd < 0 ∨ !ok then none else some ⟨fd, mpcMagic, flags, none, []⟩

/-- `__minipc_link_create`; `junk` is what a freed link leaves in its memory. -/
def minipcLinkCreate (flags : Word) (calloc : Option Nat) (channel : Channel) (junk : MpcLink ι)
    (s : LinkHeap ι) : Option Nat × LinkHeap ι :=
  match calloc with
  | none => (none, s)
  | some link =>
    match setupLink flags channel with
    | none => (none, s.store link junk)
    | some content =>
      (some link, { s.store link { content with nextl := s.base } with
        base := some link, allocated := s.allocated + 1, opened := link :: s.opened })

/-! ### Closing -/

/-- The search of `minipc_close`: whether a pointer to `link` is found in `fuel` turns. -/
def findLink (mem : Nat → MpcLink ι) (link : Nat) : Nat → Option Nat → Bool
  | 0, _ => false
  | _ + 1, none => false
  | fuel + 1, some a => if a = link then true else findLink mem link fuel (mem a).nextl

/-- The loop that releases the allocated functions: which ones, and what is left. -/
def freeFlists : Nat → List (MpcFlist ι) → List Nat × List (MpcFlist ι)
  | 0, flist => ([], flist)
  | _ + 1, [] => ([], [])
  | fuel + 1, node :: flist =>
    let (freed, left) := freeFlists fuel (mpcFreeFlist (node :: flist) (.heap node.addr))
    (node.addr :: freed, left)

/-- `minipc_close`, with its return value. -/
def minipcClose (link : Nat) (junk : MpcLink ι) (s : LinkHeap ι) : Int × LinkHeap ι :=
  if (s.mem link).magic ≠ mpcMagic then (-1, s)
  else if !findLink s.mem link (s.allocated + 1) s.base then (-1, s)
  else
    -- `*nextp` is the link itself, so its own pointer is stored to it again
    let s := s.store link { s.mem link with nextl := (s.mem link).nextl }
    let (freed, _) := freeFlists (s.mem link).flist.length (s.mem link).flist
    (0, { s.store link junk with
      opened := s.opened.filter (· ≠ link), freed := s.freed ++ freed })

inductive LinkCall (ι : Type)
  | create (flags : Word) (calloc : Option Nat) (channel : Channel) (junk : MpcLink ι)
  | close (link : Nat) (junk : MpcLink ι)
  /-- `minipc_export` on an open link -/
  | minipcExport (link : Nat) (pd : ι) (calloc : Option Nat)

def linkStep (s : LinkHeap ι) : LinkCall ι → LinkHeap ι
  | .create flags calloc channel junk => (minipcLinkCreate flags calloc channel junk s).2
  | .close link junk => (minipcClose link junk s).2
  | .minipcExport link pd calloc =>
    if link ∈ s.opened then
      s.store link { s.mem link with flist := (minipcExport pd calloc (s.mem link).flist).2 }
    else s

def linkStart (mem : Nat → MpcLink ι) : LinkHeap ι := ⟨none, mem, 0, [], []⟩

/-! ### What is asked of the list -/

/-- From `__mpc_base` on there are the open links, each once. -/
def LinksListed (s : LinkHeap ι) : Prop :=
  ∃ nodes, Chain (fun a => (s.mem a).nextl) s.base nodes ∧ nodes.Nodup ∧
    ∀ a, a ∈ nodes ↔ a ∈ s.opened

/-- Closing an open link succeeds, frees its export list and keeps the other links. -/
def CloseKeeps (s : LinkHeap ι) (link : Nat) (junk : MpcLink ι) : Prop :=
  link ∈ s.opened → (minipcClose link junk s).1 = 0 ∧
    (minipcClose link junk s).2.freed = s.freed ++ (s.mem link).flist.map MpcFlist.addr ∧
    ∀ a, a ≠ link → (minipcClose link junk s).2.mem a = s.mem a

def LinksKept (s : LinkHeap ι) (e : LinkCall ι) : Prop :=
  LinksListed (linkStep s e) ∧
    match e with
    | .close link junk => CloseKeeps s link junk
    | .create _ _ _ _ | .minipcExport _ _ _ => True

/-- `calloc` returns memory that is not in use. -/
def LegalAlloc (s : LinkHeap ι) : LinkCall ι → Prop
  | .create _ calloc _ _ => ∀ link ∈ calloc, link ∉ s.opened
  | .close _ _ | .minipcExport _ _ _ => True

def NoneClosed (s : LinkHeap ι) : LinkCall ι → Prop
  | .close link _ => link ∉ s.opened
  | .create _ _ _ _ | .minipcExport _ _ _ => True

/-! ### The loops of `minipc_close` -/

/-- The search visits the nodes of the list in order. -/
theorem findLink_iff {mem : Nat → MpcLink ι} {p : Option Nat} {nodes : List Nat}
    (chain : Chain (fun a => (mem a).nextl) p nodes) (link : Nat) {fuel : Nat}
    (enough : nodes.length < fuel) : findLink mem link fuel p = true ↔ link ∈ nodes := by
  induction chain generalizing fuel with
  | nil =>
    obtain ⟨k, rfl⟩ := Nat.exists_eq_add_one_of_ne_zero (Nat.ne_zero_of_lt enough)
    simp [findLink]
  | @cons a nodes rest ih =>
    obtain ⟨k, rfl⟩ := Nat.exists_eq_add_one_of_ne_zero (Nat.ne_zero_of_lt enough)
    have fewer : nodes.length < k := by simpa using enough
    rw [findLink, List.mem_cons]
    by_cases here : a = link
    · simp [here]
    · rw [if_neg here, ih fewer]
      simp [Ne.symm here]

/-- Each turn releases the first node, which is found at once. -/
theorem freeFlists_all (flist : List (MpcFlist ι)) :
    freeFlists flist.length flist = (flist.map MpcFlist.addr, []) := by
  induction flist with
  | nil => rfl
  | cons node flist ih =>
    have first : mpcFreeFlist (node :: flist) (.heap node.addr) = flist := by
      simp [mpcFreeFlist]
    simp only [List.length_cons, freeFlists, first, ih, List.map_cons]

/-! ### Steps -/

/-- The list and its length, and the links that `CHECK_LINK` accepts. -/
structure LinksInv (s : LinkHeap ι) (nodes : List Nat) : Prop where
  chain : Chain (fun a => (s.mem a).nextl) s.base nodes
  nodup : nodes.Nodup
  opened : ∀ a, a ∈ nodes ↔ a ∈ s.opened
  bounded : nodes.length ≤ s.allocated
  magic : ∀ a ∈ nodes, (s.mem a).magic = mpcMagic

/-- Every link that is open is in the list. -/
theorem LinksInv.listed {s : LinkHeap ι} {nodes : List Nat} (inv : LinksInv s nodes) :
    LinksListed s :=
  ⟨nodes, inv.chain, inv.nodup, inv.opened⟩

variable {s : LinkHeap ι} {nodes : List Nat}

/-- Memory outside of the list may change. -/
theorem LinksInv.store_other (inv : LinksInv s nodes) {link : Nat} (other : link ∉ s.opened)
    (content : MpcLink ι) : LinksInv (s.store link content) nodes := by
  have kept : ∀ a ∈ nodes, (s.store link content).mem a = s.mem a := by
    intro a member
    apply Function.update_of_ne
    rintro rfl
    exact other ((inv.opened a).mp member)
  exact {
    chain := inv.chain.congr fun a member => by rw [kept a member]
    nodup := inv.nodup
    opened := inv.opened
    bounded := inv.bounded
    magic := fun a member => by rw [kept a member, inv.magic a member] }

private theorem setupLink_magic {flags : Word} {channel : Channel} {content : MpcLink ι}
    (success : setupLink flags channel = some content) : content.magic = mpcMagic := by
  cases channel with
  | memlink flag =>
    cases flag with
    | none => cases success
    | some flag =>
      cases success
      rfl
  | socket fd ok =>
    rw [setupLink] at success
    split at success
    · cases success
    · cases success
      rfl

/-- A new link is put into the list. -/
theorem LinksInv.create (inv : LinksInv s nodes) (flags : Word) {calloc : Option Nat}
    (legal : ∀ link ∈ calloc, link ∉ s.opened) (channel : Channel) (junk : MpcLink ι) :
    ∃ nodes, LinksInv (minipcLinkCreate flags calloc channel junk s).2 nodes := by
  cases calloc with
  | none => exact ⟨nodes, inv⟩
  | some link =>
    have fresh : link ∉ s.opened := legal link rfl
    cases success : (setupLink flags channel : Option (MpcLink ι)) with
    | none => exact ⟨nodes, by simpa [minipcLinkCreate, success] using inv.store_other fresh junk⟩
    | some content =>
      -- the new link becomes the head of the list
      have before := inv.store_other fresh { content with nextl := s.base }
      have unlisted : link ∉ nodes := fun member => fresh ((inv.opened link).mp member)
      refine ⟨link :: nodes, ?_⟩
      simp only [minipcLinkCreate, success]
      constructor
      · apply Chain.cons
        simpa [LinkHeap.store] using before.chain
      · exact List.nodup_cons.mpr ⟨unlisted, inv.nodup⟩
      · intro a
        rw [List.mem_cons, List.mem_cons, inv.opened a]
      · simpa using inv.bounded
      · rw [List.forall_mem_cons]
        exact ⟨by simpa [LinkHeap.store] using setupLink_magic success, before.magic⟩

private theorem LinksInv.close_unknown (inv : LinksInv s nodes) {link : Nat}
    (unknown : link ∉ s.opened) (junk : MpcLink ι) : minipcClose link junk s = (-1, s) := by
  have absent : findLink s.mem link (s.allocated + 1) s.base = false := by
    rw [← Bool.not_eq_true, findLink_iff inv.chain link (Nat.lt_succ_of_le inv.bounded),
      inv.opened]
    exact unknown
  simp [minipcClose, absent]

private theorem LinksInv.close_open (inv : LinksInv s nodes) {link : Nat} (known : link ∈ s.opened)
    (junk : MpcLink ι) :
    minipcClose link junk s = (0, { s.store link junk with
      opened := s.opened.filter (· ≠ link),
      freed := s.freed ++ (s.mem link).flist.map MpcFlist.addr }) := by
  have member := (inv.opened link).mpr known
  have present : findLink s.mem link (s.allocated + 1) s.base = true :=
    (findLink_iff inv.chain link (Nat.lt_succ_of_le inv.bounded)).mpr member
  have again : s.store link { s.mem link with nextl := (s.mem link).nextl } = s := by
    rw [LinkHeap.store, Function.update_eq_self]
  rw [minipcClose, if_neg (not_not.mpr (inv.magic link member)), if_neg (by simp [present])]
  dsimp only
  rw [again, freeFlists_all]

private theorem LinksInv.export (inv : LinksInv s nodes) (link : Nat) (pd : ι)
    (calloc : Option Nat) :
    LinksInv (linkStep s (.minipcExport link pd calloc)) nodes := by
  rw [linkStep]
  split
  · -- neither pointers nor magic numbers change
    generalize (minipcExport pd calloc (s.mem link).flist).2 = flist
    have nextl : ∀ a, ((s.store link { s.mem link with flist := flist }).mem a).nextl =
        (s.mem a).nextl := by
      intro a
      by_cases same : a = link
      · simp [LinkHeap.store, same]
      · simp [LinkHeap.store, same]
    have magic : ∀ a, ((s.store link { s.mem link with flist := flist }).mem a).magic =
        (s.mem a).magic := by
      intro a
      by_cases same : a = link
      · simp [LinkHeap.store, same]
      · simp [LinkHeap.store, same]
    exact {
      chain := inv.chain.congr fun a _ => nextl a
      nodup := inv.nodup
      opened := inv.opened
      bounded := inv.bounded
      magic := fun a member => (magic a).trans (inv.magic a member) }
  · exact inv

/-- Closing does what it should but for the list. -/
theorem LinksInv.closeKeeps (inv : LinksInv s nodes) (link : Nat) (junk : MpcLink ι) :
    CloseKeeps s link junk := by
  intro known
  rw [inv.close_open known]
  exact ⟨rfl, rfl, fun a other => Function.update_of_ne other _ _⟩

/-- A closed link stays in the list, whatever becomes of its memory. -/
theorem LinksInv.close_unlisted (inv : LinksInv s nodes) {link : Nat} (known : link ∈ s.opened)
    (junk : MpcLink ι) : ¬LinksListed (linkStep s (.close link junk)) := by
  rintro ⟨nodes', chain, -, opened⟩
  rw [linkStep, inv.close_open known] at chain opened
  have member := (inv.opened link).mpr known
  have still : link ∈ nodes' := by
    refine inv.chain.mem_of_agree member (fun b other => ?_) chain
    simp [LinkHeap.store, other]
  have kept := (opened link).mp still
  simp at kept

private theorem linksKept_iff (inv : LinksInv s nodes) {e : LinkCall ι} (legal : LegalAlloc s e) :
    LinksKept s e ↔ NoneClosed s e := by
  cases e with
  | create flags calloc channel junk =>
    obtain ⟨nodes', after⟩ := inv.create flags legal channel junk
    exact iff_of_true ⟨after.listed, trivial⟩ trivial
  | close link junk =>
    constructor
    · intro kept known
      exact inv.close_unlisted known junk kept.1
    · intro unknown
      refine ⟨?_, inv.closeKeeps link junk⟩
      rw [linkStep, inv.close_unknown unknown]
      exact inv.listed
  | minipcExport link pd calloc => exact iff_of_true ⟨(inv.export link pd calloc).listed, trivial⟩ trivial

private theorem linksInv_step (inv : LinksInv s nodes) {e : LinkCall ι} (legal : LegalAlloc s e)
    (noneClosed : NoneClosed s e) : ∃ nodes, LinksInv (linkStep s e) nodes := by
  cases e with
  | create flags calloc channel junk => exact inv.create flags legal channel junk
  | close link junk =>
    refine ⟨nodes, ?_⟩
    rw [linkStep, inv.close_unknown noneClosed]
    exact inv
  | minipcExport link pd calloc => exact ⟨nodes, inv.export link pd calloc⟩

private theorem linkStart_inv (mem : Nat → MpcLink ι) : LinksInv (linkStart mem) [] where
  chain := .nil
  nodup := .nil
  opened := fun _ => Iff.rfl
  bounded := le_rfl
  magic := nofun

/-- The list has the open links, and closing keeps the others, exactly in the runs in which no
open link is closed. -/
theorem links_kept_iff (mem : Nat → MpcLink ι) (calls : List (LinkCall ι))
    (legal : Along LegalAlloc linkStep (linkStart mem) calls) :
    Along LinksKept linkStep (linkStart mem) calls ↔
      Along NoneClosed linkStep (linkStart mem) calls :=
  Along.congr_inv_of (fun s => ∃ nodes, LinksInv s nodes)
    (fun _ _ ⟨_, inv⟩ legal => linksInv_step inv legal)
    (fun _ _ ⟨_, inv⟩ legal => linksKept_iff inv legal) ⟨[], linkStart_inv mem⟩ legal

/-! ### A link that is closed -/

def clearedLink : MpcLink Unit := ⟨0, 0, 0, none, []⟩

/-- A server and a client. -/
def serverAndClient : List (LinkCall Unit) :=
  [.create 0x10000 (some 1) (.socket 3 true) clearedLink, .minipcExport 1 () (some 10),
    .create 0x20000 (some 2) (.socket 4 true) clearedLink]

/-- A server and a client that are opened and closed. -/
theorem links_kept_two :
    Along LinksKept linkStep (linkStart fun _ => clearedLink) serverAndClient := by
  refine (links_kept_iff (fun _ => clearedLink) serverAndClient ?_).mpr ?_
  · refine ⟨?_, trivial, ?_, trivial⟩
    · intro link member opened
      cases opened
    · intro link member
      obtain rfl := Option.some.inj member
      decide
  · exact ⟨trivial, trivial, trivial, trivial⟩

/-- The server is closed and still found behind the client. -/
theorem closed_link_listed :
    let s := run linkStep (linkStart fun _ => clearedLink) (serverAndClient ++ [.close 1 clearedLink])
    s.opened = [2] ∧ Chain (fun a => (s.mem a).nextl) s.base [2, 1] ∧ ¬LinksListed s := by
  have chain : Chain (fun a => ((run linkStep (linkStart fun _ => clearedLink)
      (serverAndClient ++ [.close 1 clearedLink])).mem a).nextl) (some 2) [2, 1] :=
    .cons (.cons .nil)
  refine ⟨rfl, chain, ?_⟩
  rintro ⟨nodes, chain', -, opened⟩
  rw [chain'.unique chain] at opened
  exact absurd ((opened 1).mp (by decide)) (by decide)

end WrSwitch.MiniRpc
