import WrSwitch.Rtu.RepInvariant
import WrSwitch.Rtu.EntryWords

/-!
# The hash table of the hardware

The words written through the MFIFO are those of the mirror as long as no update is
written through an address that is not the entry's own.
-/
namespace WrSwitch.Rtu

open Machine

/-- The five words at a ZBT address. -/
def zbtWords (f : Fpga) (addr : Nat) : List Word := (List.range 5).map fun k => f.zbt (addr + k)

/-- Every slot of the mirror is what the hardware holds at its address. -/
def Mirror (t : Htab) (f : Fpga) : Prop :=
  ∀ h < htabEntries, ∀ b < rtuBuckets, zbtWords f (toMemAddr ⟨h, b⟩) = macEntryWords (t h b)

/-- An entry that is updated in place records the slot it is found in. -/
def OwnAddrPlan (m : SwState) : CreatePlan → Prop
  | .update i j => (m.rtuHtab i j).addr = ⟨i, j⟩
  | .keep | .full | .insert _ => True

instance (m : SwState) : ∀ plan, Decidable (OwnAddrPlan m plan)
  | .update i j => inferInstanceAs (Decidable ((m.rtuHtab i j).addr = ⟨i, j⟩))
  | .keep | .full | .insert _ => isTrue trivial

def OwnAddrUpdate (m : SwState) : FdOp → Prop
  | .create mac vid portMask dynamic atExistingEntry _ =>
    OwnAddrPlan m (createPlan m mac vid portMask dynamic atExistingEntry)
  | .remove .. | .clear .. | .flush .. => True

instance (m : SwState) : ∀ op, Decidable (OwnAddrUpdate m op)
  | .create mac vid portMask dynamic atExistingEntry _ =>
    inferInstanceAs (Decidable (OwnAddrPlan m
      (createPlan m mac vid portMask dynamic atExistingEntry)))
  | .remove .. | .clear .. | .flush .. => isTrue trivial

/-! ### Bursts -/

private theorem toMemAddr_eq {h b : Nat} (row : h < htabEntries) (column : b < rtuBuckets) :
    toMemAddr ⟨h, b⟩ = (h * 4 + b) * 8 := by
  rw [htabEntries_eq] at row
  rw [rtuBuckets_eq] at column
  have hash : 0x07FF &&& h = h := by
    rw [Nat.and_comm]
    exact (Nat.and_two_pow_sub_one_eq_mod h 11).trans (Nat.mod_eq_of_lt (by omega))
  have bucket : 0x0003 &&& b = b := by
    rw [Nat.and_comm]
    exact (Nat.and_two_pow_sub_one_eq_mod b 2).trans (Nat.mod_eq_of_lt (by omega))
  have small : b <<< 3 < 2 ^ 5 := by
    rw [Nat.shiftLeft_eq]
    omega
  unfold toMemAddr
  dsimp only
  rw [hash, bucket, ← Nat.shiftLeft_add_eq_or_of_lt small, Nat.shiftLeft_eq, Nat.shiftLeft_eq]
  omega

private theorem storeWord_eq (f : Fpga) (word : Word) :
    (writeMfifoEvents rtuMfifoR0DataSel word).foldl Fpga.apply f =
      { f with mfifoAdSel := false, zbt := Function.update f.zbt f.mfifoAddr word,
               mfifoAddr := f.mfifoAddr + 1 } :=
  rfl

/-- Data words are stored one after the other from the current address on. -/
private theorem storeWords_zbt (words : List Word) (f : Fpga) (x : Nat) :
    ((words.flatMap (writeMfifoEvents rtuMfifoR0DataSel)).foldl Fpga.apply f).zbt x =
      if f.mfifoAddr ≤ x ∧ x < f.mfifoAddr + words.length then words.getD (x - f.mfifoAddr) 0
      else f.zbt x := by
  induction words generalizing f with
  | nil =>
    have nowhere : ¬(f.mfifoAddr ≤ x ∧ x < f.mfifoAddr + 0) := by omega
    rw [List.length_nil, if_neg nowhere]
    rfl
  | cons word words ih =>
    rw [List.flatMap_cons, List.foldl_append, ih, storeWord_eq, List.length_cons]
    dsimp only
    by_cases first : x = f.mfifoAddr
    · subst first
      rw [if_neg (by omega), Function.update_self, if_pos (by omega), Nat.sub_self,
        List.getD_cons_zero]
    · rw [Function.update_of_ne first]
      by_cases later : f.mfifoAddr + 1 ≤ x ∧ x < f.mfifoAddr + 1 + words.length
      · obtain ⟨k, rfl⟩ := Nat.exists_eq_add_of_le later.1
        rw [if_pos later, if_pos (by omega), show f.mfifoAddr + 1 + k - f.mfifoAddr = k + 1 by omega,
          Nat.add_sub_cancel_left, List.getD_cons_succ]
      · rw [if_neg later, if_neg (by omega)]

/-- A burst replaces the words of its own slot and no others. -/
theorem zbtWords_burst (f : Fpga) (x y : Nat) (words : List Word) (flush : Bool)
    (length : words.length = 5) (fits : y * 8 < 2 ^ 32) :
    zbtWords ((burstEvents (y * 8) words flush).foldl Fpga.apply f) (x * 8) =
      if x = y then words else zbtWords f (x * 8) := by
  -- the address comes first, the words follow it
  have addressed : (writeMfifoEvents rtuMfifoR0AdSel (BitVec.ofNat 32 (y * 8))).foldl Fpga.apply f =
      { f with mfifoAdSel := true, mfifoAddr := y * 8 } := by
    have value : (BitVec.ofNat 32 (y * 8)).toNat = y * 8 := by
      rw [BitVec.toNat_ofNat, Nat.mod_eq_of_lt fits]
    conv_rhs => rw [← value]
    rfl
  have flushed (g : Fpga) : ((if flush then flushEvents else []).foldl Fpga.apply g).zbt = g.zbt := by
    cases flush <;> rfl
  -- the burst writes the five words of its own slot
  have word (k : Nat) :
      ((burstEvents (y * 8) words flush).foldl Fpga.apply f).zbt (x * 8 + k) =
        if y * 8 ≤ x * 8 + k ∧ x * 8 + k < y * 8 + 5 then words.getD (x * 8 + k - y * 8) 0
        else f.zbt (x * 8 + k) := by
    unfold burstEvents
    rw [List.foldl_append, List.foldl_append, flushed, addressed, storeWords_zbt, length]
  unfold zbtWords
  split
  next same =>
    subst same
    refine List.ext_getElem (by rw [List.length_map, List.length_range, length]) ?_
    intro k bound inside
    rw [List.length_map, List.length_range] at bound
    rw [List.getElem_map, List.getElem_range, word, if_pos (by omega), Nat.add_sub_cancel_left]
    exact (List.getD_eq_getElem words 0 inside)
  next other =>
    refine List.map_congr_left ?_
    intro k mem
    have bound := List.mem_range.mp mem
    rw [word, if_neg (by omega)]

/-- Accesses that store nothing in the hash table memory. -/
def Silent (e : Event) : Prop := ∀ f : Fpga, (f.apply e).zbt = f.zbt

/-- Other registers do not show in the memory of the table. -/
theorem zbtWords_silent (es : List Event) (silent : ∀ e ∈ es, Silent e) (f : Fpga) (addr : Nat) :
    zbtWords (es.foldl Fpga.apply f) addr = zbtWords f addr := by
  have zbt : (es.foldl Fpga.apply f).zbt = f.zbt := by
    induction es generalizing f with
    | nil => rfl
    | cons e es ih =>
      rw [List.foldl_cons, ih fun e mem => silent e (List.mem_cons_of_mem _ mem)]
      exact silent e List.mem_cons_self f
  unfold zbtWords
  rw [zbt]

/-- Writes to other registers keep the mirror. -/
theorem Mirror.silent {t : Htab} {f : Fpga} (mirror : Mirror t f) {es : List Event}
    (silent : ∀ e ∈ es, Silent e) : Mirror t (es.foldl Fpga.apply f) := by
  intro h row b column
  rw [zbtWords_silent es silent]
  exact mirror h row b column

/-- A burst at slot `(i, j)`, seen at slot `(h, b)`. -/
theorem zbtWords_slot (f : Fpga) {h b i j : Nat} (row : h < htabEntries) (column : b < rtuBuckets)
    (row' : i < htabEntries) (column' : j < rtuBuckets) (ent : RtuFilteringEntry) (flush : Bool) :
    zbtWords ((burstEvents (toMemAddr ⟨i, j⟩) (macEntryWords ent) flush).foldl Fpga.apply f)
        (toMemAddr ⟨h, b⟩) =
      if h = i ∧ b = j then macEntryWords ent else zbtWords f (toMemAddr ⟨h, b⟩) := by
  have bounds : i < 512 ∧ j < 4 ∧ b < 4 := ⟨row', column', column⟩
  rw [toMemAddr_eq row column, toMemAddr_eq row' column',
    zbtWords_burst _ _ _ _ _ rfl (by omega)]
  exact if_congr (by omega) rfl rfl

/-! ### Requests -/

/-- After the bursts for the first `n` slots of a row these slots hold their new words. -/
theorem rowBursts_zbtWords (t : Htab) {hash : Nat} (row : hash < htabEntries)
    (flush : Nat → Bool) (n : Nat) (fits : n ≤ rtuBuckets) (f : Fpga) {h b : Nat}
    (row' : h < htabEntries) (column : b < rtuBuckets) :
    zbtWords (((List.range n).flatMap fun i =>
        burstEvents (toMemAddr ⟨hash, i⟩) (macEntryWords (t hash i)) (flush i)).foldl Fpga.apply f)
        (toMemAddr ⟨h, b⟩) =
      if h = hash ∧ b < n then macEntryWords (t h b) else zbtWords f (toMemAddr ⟨h, b⟩) := by
  induction n with
  | zero =>
    have nowhere : ¬(h = hash ∧ b < 0) := by omega
    rw [if_neg nowhere]
    rfl
  | succ n ih =>
    rw [List.range_succ, List.flatMap_append, List.foldl_append, List.flatMap_singleton,
      zbtWords_slot _ row' column row (by omega), ih (by omega)]
    by_cases last : h = hash ∧ b = n
    · obtain ⟨rfl, rfl⟩ := last
      rw [if_pos ⟨rfl, rfl⟩, if_pos ⟨rfl, b.lt_succ_self⟩]
    · rw [if_neg last]
      exact if_congr (by omega) rfl rfl

/-- `delete_htab_entry` rewrites every slot it changes. -/
theorem Mirror.erase {t : Htab} {f : Fpga} (mirror : Mirror t f) (packed : Packed t)
    {addr : RtuAddr} (row : addr.hash < htabEntries) :
    Mirror (t.erase addr)
      ((rowEvents (t.erase addr) addr.hash (htabCountBuckets t addr.hash)).foldl Fpga.apply f) := by
  intro h row' b column
  unfold rowEvents
  rw [rowBursts_zbtWords _ row _ _ (htabCountBuckets_le t addr.hash) f row' column]
  split
  next => rfl
  -- outside the row that is written, memory must not have changed either
  next outside =>
    have unchanged : t.erase addr h b = t h b := by
      by_cases same : h = addr.hash
      · subst same
        by_cases above : addr.bucket + 1 < htabCountBuckets t addr.hash
        · rw [erase_shift above, if_neg (by omega)]
        · rw [erase_last (by omega)]
          by_cases here : b = addr.bucket
          · subst here
            rw [set_self]
            refine (packed.blank _ _ ?_).symm
            rw [packed.valid_iff]
            exact fun below => outside ⟨rfl, below⟩
          · exact set_other _ fun both => here both.2
      · exact erase_other same b
    rw [unchanged]
    exact mirror h row' b column

/-- A list of removals, each in a row of the table. -/
theorem Mirror.commit {t : Htab} {f : Fpga} (mirror : Mirror t f) (packed : Packed t)
    {reqs : List HwReq} (removals : ∀ req ∈ reqs, req.type = .remove ∧ req.addr.hash < htabEntries) :
    Mirror (commitHtab t reqs) ((commitEvents t reqs).foldl Fpga.apply f) := by
  induction reqs generalizing t f with
  | nil => exact mirror
  | cons req reqs ih =>
    obtain ⟨type, row⟩ := removals req List.mem_cons_self
    have table : commitReq t req = t.erase req.addr := by
      unfold commitReq
      rw [type]
    have events : commitReqEvents t req =
        rowEvents (t.erase req.addr) req.addr.hash (htabCountBuckets t req.addr.hash) := by
      unfold commitReqEvents
      rw [type]
    unfold commitHtab commitEvents
    rw [List.foldl_cons, List.foldl_append, table, events]
    exact ih (mirror.erase packed row) (packed.erase req.addr)
      fun req mem => removals req (List.mem_cons_of_mem _ mem)

/-- A sweep keeps the mirror. -/
theorem Mirror.sweep {t : Htab} {f : Fpga} (mirror : Mirror t f) (packed : Packed t)
    {logged : RtuFilteringEntry → List Event} {doomed : RtuFilteringEntry → Bool}
    (silent : ∀ ent, ∀ e ∈ logged ent, Silent e)
    (occupied : ∀ ent, doomed ent = true → ent.valid ≠ 0) :
    Mirror (sweptHtab t doomed) ((sweepEvents t logged doomed).foldl Fpga.apply f) := by
  unfold sweptHtab sweepEvents
  rw [List.foldl_append]
  refine Mirror.commit (mirror.silent ?_) packed ?_
  · intro e mem
    obtain ⟨ij, _, logged⟩ := List.mem_flatMap.mp mem
    exact silent _ e logged
  · intro req mem
    obtain ⟨ij, listed, rfl⟩ := List.mem_map.mp mem
    refine ⟨rfl, ?_⟩
    have held := occupied _ (List.mem_filter.mp listed).2
    dsimp only
    rw [(packed.row ij.1 ij.2 held).1]
    exact (packed.inside ij.1 ij.2 held).1

/-! ### Operations -/

/-- Storing an entry and writing it to its slot. -/
theorem Mirror.store {t : Htab} {f : Fpga} (mirror : Mirror t f) {i j : Nat}
    (row : i < htabEntries) (column : j < rtuBuckets) (ent : RtuFilteringEntry) :
    Mirror (t.set i j ent)
      ((burstEvents (toMemAddr ⟨i, j⟩) (macEntryWords ent) true).foldl Fpga.apply f) := by
  intro h row' b column'
  rw [zbtWords_slot f row' column' row column]
  split
  next here => rw [here.1, here.2, set_self]
  next other =>
    rw [set_other ent other]
    exact mirror h row' b column'

/-- Creating an entry keeps the mirror. -/
theorem Mirror.create {m : SwState} {f : Fpga} (mirror : Mirror m.rtuHtab f) {mac : Mac}
    {vid : BitVec 16} {portMask dynamic : Word} {atExistingEntry : Int} (now : Word)
    (own : OwnAddrPlan m (createPlan m mac vid portMask dynamic atExistingEntry)) :
    Mirror (createHtab m mac vid portMask dynamic atExistingEntry now)
      ((createEvents m mac vid portMask dynamic atExistingEntry now).foldl Fpga.apply f) := by
  unfold createEvents createHtab
  rw [List.foldl_cons]
  -- the plan says which slot is written
  cases plan : createPlan m mac vid portMask dynamic atExistingEntry with
  | keep => exact mirror
  | full => exact mirror
  | update i j =>
    rw [plan] at own
    have home : (m.rtuHtab i j).addr = ⟨i, j⟩ := own
    obtain ⟨⟨row, column⟩, _⟩ := htabSearch_some (createPlan_update plan).2.1
    dsimp only
    rw [home]
    unfold updatedHtab
    rw [set_self]
    exact mirror.store row column _
  | insert eaddr =>
    obtain ⟨_, _, hash, first, room⟩ := createPlan_insert plan
    have row : eaddr.hash < htabEntries := hash ▸ rtuHash_lt _ _ _
    have column : eaddr.bucket < rtuBuckets := by
      have le := htabCountBuckets_le m.rtuHtab eaddr.hash
      omega
    dsimp only
    unfold insertedHtab
    rw [set_self]
    exact mirror.store row column _

/-- The aging update changes no word. -/
theorem agedHtab_words (bitmap : Nat → Word) (t : Word) (tab : Htab) (h b : Nat) :
    macEntryWords (agedHtab bitmap t tab h b) = macEntryWords (tab h b) := by
  unfold agedHtab agedEntry ageTouch
  split
  · split <;> rfl
  · rfl

/-- Every operation that writes to its own address keeps the mirror. -/
theorem Mirror.step {m : SwState} {f : Fpga} (mirror : Mirror m.rtuHtab f)
    (packed : Packed m.rtuHtab) {op : FdOp} (own : OwnAddrUpdate m op) :
    Mirror (fdHtab m op) ((fdEvents m op).foldl Fpga.apply f) := by
  -- most sweeps fire no other event
  have mute (ent : RtuFilteringEntry) : ∀ e ∈ ([] : List Event), Silent e := by
    intro e impossible
    cases impossible
  cases op with
  | create mac vid portMask dynamic atExistingEntry now => exact mirror.create now own
  | remove mac portMask type =>
    exact mirror.sweep packed mute (fdDoomed_valid m (.remove mac portMask type))
  | clear destPort type =>
    refine mirror.sweep packed ?_ (fdDoomed_valid m (.clear destPort type))
    intro ent e mem
    split at mem
    · obtain rfl := List.mem_singleton.mp mem
      exact fun _ => rfl
    · cases mem
  | flush bitmap t₁ t₂ =>
    unfold fdEvents
    rw [List.foldl_append]
    -- aging changes no word that the hardware holds
    have aged : Mirror (agedHtab bitmap t₁ m.rtuHtab) f := by
      intro h row b column
      rw [agedHtab_words]
      exact mirror h row b column
    refine Mirror.sweep (aged.silent ?_) (packed.congr (agedHtab_sameKeys bitmap t₁ m.rtuHtab)) mute
      (fdDoomed_valid m (.flush bitmap t₁ t₂))
    intro e mem
    obtain ⟨i, _, cleared⟩ := List.mem_flatMap.mp mem
    obtain rfl := List.mem_singleton.mp cleared
    exact fun _ => rfl

/-! ### Runs -/

/-- `rtu_clean_htab` leaves five zero words in every slot. -/
theorem cleanFd_mirror (s : RtuState) : Mirror (cleanFd s).rtuHtab (cleanFd s).fpga := by
  have swept (n : Nat) (fits : n ≤ 2048) (f : Fpga) (x : Nat) (below : x < n) :
      zbtWords (((List.range n).flatMap fun addr =>
        burstEvents (addr * 8) [0, 0, 0, 0, 0] true).foldl Fpga.apply f) (x * 8) =
        [0, 0, 0, 0, 0] := by
    induction n with
    | zero => omega
    | succ n ih =>
      rw [List.range_succ, List.flatMap_append, List.foldl_append, List.flatMap_singleton,
        zbtWords_burst _ _ _ _ _ rfl (by omega)]
      split
      next => rfl
      next other => exact ih (by omega) (by omega)
  intro h row b column
  rw [cleanFd_toSwState]
  unfold cleanFd
  rw [rtuCleanHtab_eq, emitAll_fpga, toMemAddr_eq row column, macEntryWords_zero]
  have bounds : h < 512 ∧ b < 4 := ⟨row, column⟩
  exact swept 2048 (Nat.le_refl _) _ _ (by omega)

/-- What every admitted run keeps: packed rows, an empty request list, and a faithful mirror. -/
theorem cleanFd_run_mirror (s₀ : RtuState) (ops : List FdOp) (idle : s₀.hwReqList = [])
    (along : Along (fun s op => OwnAddrUpdate s.toSwState op) fdStep (cleanFd s₀) ops) :
    Packed (run fdStep (cleanFd s₀) ops).rtuHtab ∧
      Mirror (run fdStep (cleanFd s₀) ops).rtuHtab (run fdStep (cleanFd s₀) ops).fpga := by
  -- no request waits between two operations, so each of them is done when it returns
  let Inv : RtuState → Prop := fun s =>
    s.hwReqList = [] ∧ Packed s.rtuHtab ∧ Mirror s.rtuHtab s.fpga
  have kept (s : RtuState) (op : FdOp) (inv : Inv s) (own : OwnAddrUpdate s.toSwState op) :
      Inv (fdStep s op) := by
    obtain ⟨waiting, packed, mirror⟩ := inv
    rw [fdStep_eq s op waiting]
    refine ⟨?_, ?_, ?_⟩
    · rw [emitAll_toSwState]
      exact waiting
    · rw [emitAll_toSwState]
      exact packed.step op
    · rw [emitAll_toSwState, emitAll_fpga]
      exact mirror.step packed own
  have initial : Inv (cleanFd s₀) := by
    refine ⟨cleanFd_idle s₀ idle, ?_, cleanFd_mirror s₀⟩
    rw [cleanFd_toSwState]
    exact packed_zero
  exact (run_invariant Inv _ fdStep kept (cleanFd s₀) ops initial along).2

/-- An update in place is written through the address stored in the entry. -/
theorem zbtWords_update {s : RtuState} (idle : s.hwReqList = []) {mac : Mac} {vid : BitVec 16}
    {portMask dynamic : Word} {atExistingEntry : Int} (now : Word) {i j i' j' : Nat}
    (plan : createPlan s.toSwState mac vid portMask dynamic atExistingEntry = .update i j)
    (addr : (s.rtuHtab i j).addr = ⟨i', j'⟩) (row : i' < htabEntries) (column : j' < rtuBuckets) :
    zbtWords (fdStep s (.create mac vid portMask dynamic atExistingEntry now)).fpga
        (toMemAddr ⟨i', j'⟩) =
      macEntryWords (fdHtab s.toSwState
        (.create mac vid portMask dynamic atExistingEntry now) i j) := by
  rw [fdStep_eq s _ idle, emitAll_fpga]
  unfold fdEvents createEvents fdHtab
  dsimp only
  rw [plan]
  dsimp only
  rw [addr, List.foldl_cons, zbtWords_slot _ row column row column]
  exact if_pos ⟨rfl, rfl⟩

/-- An update through an address that is not the entry's own breaks the mirror, as soon as
it changes a word of the entry at that address. -/
theorem not_mirror_of_stale {s : RtuState} (idle : s.hwReqList = []) {mac : Mac}
    {vid : BitVec 16} {portMask dynamic : Word} {atExistingEntry : Int} {now : Word}
    {i j i' j' : Nat}
    (plan : createPlan s.toSwState mac vid portMask dynamic atExistingEntry = .update i j)
    (addr : (s.rtuHtab i j).addr = ⟨i', j'⟩) (row : i' < htabEntries) (column : j' < rtuBuckets)
    (different : macEntryWords (fdHtab s.toSwState
        (.create mac vid portMask dynamic atExistingEntry now) i j) ≠
      macEntryWords (fdHtab s.toSwState
        (.create mac vid portMask dynamic atExistingEntry now) i' j')) :
    ¬Mirror (fdStep s (.create mac vid portMask dynamic atExistingEntry now)).rtuHtab
      (fdStep s (.create mac vid portMask dynamic atExistingEntry now)).fpga := by
  intro mirror
  have slot := mirror i' row j' column
  rw [zbtWords_update idle now plan addr row column, fdStep_toSwState s _ idle] at slot
  exact different slot

/-- From the cleared database on, every run that only updates entries through their own
address keeps the hardware equal to the mirror, slot by slot and word by word. -/
theorem fd_mirrors_hardware (s₀ : RtuState) (ops : List FdOp) (idle : s₀.hwReqList = [])
    (along : Along (fun s op => OwnAddrUpdate s.toSwState op) fdStep (cleanFd s₀) ops) :
    let s := run fdStep (cleanFd s₀) ops
    (∀ h < htabEntries, ∀ b < rtuBuckets,
      zbtWords s.fpga (toMemAddr ⟨h, b⟩) = macEntryWords (s.rtuHtab h b)) ∧
    (∀ h < htabEntries, ∀ b < rtuBuckets, (s.rtuHtab h b).valid = 0 →
      macEntryWords (s.rtuHtab h b) = [0, 0, 0, 0, 0]) ∧
    ∀ h < htabEntries, ∀ b < rtuBuckets, ∀ h' < htabEntries, ∀ b' < rtuBuckets,
      macEntryWords (s.rtuHtab h b) = macEntryWords (s.rtuHtab h' b') →
      (s.rtuHtab h b).valid = (s.rtuHtab h' b').valid ∧
      (s.rtuHtab h b).mac = (s.rtuHtab h' b').mac ∧
      (s.rtuHtab h b).fid = (s.rtuHtab h' b').fid ∧
      (s.rtuHtab h b).portMaskSrc = (s.rtuHtab h' b').portMaskSrc ∧
      (s.rtuHtab h b).portMaskDst = (s.rtuHtab h' b').portMaskDst := by
  intro s
  obtain ⟨packed, mirror⟩ := cleanFd_run_mirror s₀ ops idle along
  -- two rows of equal words are equal entries, as long as the valid field is a flag
  have flag (h b : Nat) : (s.rtuHtab h b).valid = 0 ∨ (s.rtuHtab h b).valid = 1 := by
    by_cases occupied : s.rtuHtab.Valid h b
    · exact .inr (packed.flag h b occupied)
    · exact .inl (not_not.mp occupied)
  refine ⟨mirror, ?_, ?_⟩
  · intro h _ b _ empty
    rw [packed.blank h b (not_not.mpr empty), macEntryWords_zero]
  · intro h _ b _ h' _ b' _ same
    exact macEntryWords_inj same (flag h b) (flag h' b')

/-- An update of an entry that was never moved. -/
theorem fd_mirrors_hardware_update :
    Mirror (run fdStep (cleanFd firstStartState)
        (learnBoth ++ [.create macB 0 4 rtuEntryTypeDynamic overrideExisting 0])).rtuHtab
      (run fdStep (cleanFd firstStartState)
        (learnBoth ++ [.create macB 0 4 rtuEntryTypeDynamic overrideExisting 0])).fpga := by
  refine (fd_mirrors_hardware firstStartState _ rfl ?_).1
  rw [along_toSwState OwnAddrUpdate _ _ (cleanFd_idle _ rfl), cleanFd_toSwState]
  decide +kernel

/-- After a removal has moved an entry down its row, an update of it is written one slot
too high. -/
theorem fd_mirrors_hardware_broken :
    ¬Mirror (run fdStep (cleanFd firstStartState)
        (removeFirst ++ [.create macB 0 4 rtuEntryTypeDynamic overrideExisting 0])).rtuHtab
      (run fdStep (cleanFd firstStartState)
        (removeFirst ++ [.create macB 0 4 rtuEntryTypeDynamic overrideExisting 0])).fpga := by
  have facts :
      let m := run fdSwStep firstStart removeFirst
      createPlan m macB 0 4 rtuEntryTypeDynamic overrideExisting = .update 95 0 ∧
      (m.rtuHtab 95 0).addr = ⟨95, 1⟩ ∧
      macEntryWords (fdHtab m (.create macB 0 4 rtuEntryTypeDynamic overrideExisting 0) 95 0) ≠
        macEntryWords
          (fdHtab m (.create macB 0 4 rtuEntryTypeDynamic overrideExisting 0) 95 1) := by
    decide +kernel
  -- the run of the table alone is short enough to be computed
  have memory : (run fdStep (cleanFd firstStartState) removeFirst).toSwState =
      run fdSwStep firstStart removeFirst := by
    rw [run_toSwState _ _ (cleanFd_idle _ rfl), cleanFd_toSwState]
    rfl
  rw [← memory] at facts
  obtain ⟨plan, addr, different⟩ := facts
  rw [run_concat]
  exact not_mirror_of_stale (run_idle _ _ (cleanFd_idle _ rfl)) plan addr (by decide)
    (by decide) different

end WrSwitch.Rtu
