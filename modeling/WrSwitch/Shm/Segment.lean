import WrSwitch.Shm.Seqlock

/-!
# Allocation in a shared segment

`wrs_shm_get` of a writer, `wrs_shm_alloc`, `wrs_shm_put` and `wrs_shm_follow` over the
sessions of one segment: which areas are handed out, and what pointers into them become.
-/
namespace WrSwitch.Shm

open Machine

/-! ### The header -/

def wrsShmMaxSize : Nat := 512 * 1024

/-- `sizeof(struct wrs_shm_head)` on the 32-bit CPU of the switch. -/
def sizeofHead : Nat := 72

def ebusy : Int := 16
def einval : Int := 22

/-- `WRS_SHM_N_NAMES` -/
def wrsShmNNames : Nat := 4

/-- `struct wrs_shm_head`, without its texts. -/
structure ShmHead where
  mapbase : Word
  stamp : Word
  dataOff : Word
  fd : Word
  pid : Word
  pidsequence : Word
  sequence : Word
  version : Word
  dataSize : Word
deriving DecidableEq, Repr

/-- The header of a new file, and of one that was cleared. -/
def ShmHead.zero : ShmHead := ⟨0, 0, 0, 0, 0, 0, 0, 0, 0⟩

/-- A word at `offset` after the bytes in `[pos, pos + len)` were cleared. -/
def clearBytes (pos len offset : Nat) (v : Word) : Word :=
  (List.range 4).foldl (fun v i =>
    if pos ≤ offset + i ∧ offset + i < pos + len then v &&& ~~~((0xff : Word) <<< (8 * i)) else v) v

/-- `memset` of a part of the segment, as far as it reaches the header. -/
def ShmHead.clear (head : ShmHead) (pos len : Nat) : ShmHead where
  mapbase := clearBytes pos len 0 head.mapbase
  stamp := clearBytes pos len 32 head.stamp
  dataOff := clearBytes pos len 36 head.dataOff
  fd := clearBytes pos len 40 head.fd
  pid := clearBytes pos len 44 head.pid
  pidsequence := clearBytes pos len 48 head.pidsequence
  sequence := clearBytes pos len 52 head.sequence
  version := clearBytes pos len 56 head.version
  dataSize := clearBytes pos len 68 head.dataSize

/-! ### Functions of the library -/

/-- An address where `mmap` can put a segment. -/
structure MapAddr where
  addr : Word
  page : addr.toNat % 4096 = 0
  nonzero : addr ≠ 0
  fits : addr.toNat + wrsShmMaxSize < 2 ^ 32

/-- What the system tells a writer in `wrs_shm_get`. -/
structure GetEnv where
  /-- `getpid()` -/
  pid : Word
  running : pid ≠ 0
  fd : Word
  /-- `kill(head->pid, 0) == 0` -/
  alive : Bool
  /-- the results of the two calls of `mmap`, or what `errno` is -/
  map : Except Int MapAddr
  remap : Except Int MapAddr

/-- The end of `wrs_shm_get` for a writer. -/
def enterHead (env : GetEnv) (locked : Bool) (head : ShmHead) : ShmHead :=
  { head with
    fd := env.fd
    stamp := 0
    sequence := if locked then 1 else 0
    pid := env.pid
    pidsequence := head.pidsequence + 1 }

/-- `wrs_shm_get` with `WRS_SHM_WRITE`: the address of the segment and its header. -/
def wrsShmGet (nameId : Nat) (env : GetEnv) (locked : Bool) (head : ShmHead) :
    Except Int (MapAddr × ShmHead) :=
  if nameId ≥ wrsShmNNames then .error einval
  else match env.map with
    | .error errno => .error errno
    | .ok map =>
      if head.pid ≠ 0 ∧ env.alive then .error ebusy
      else if head.mapbase = 0 ∨ head.mapbase = map.addr then
        .ok (map, enterHead env locked
          { head with mapbase := map.addr, dataOff := BitVec.ofNat 32 sizeofHead, dataSize := 0 })
      else match env.remap with
        | .error errno => .error errno
        | .ok remap =>
          -- mapped elsewhere than before: the whole file is cleared
          .ok (remap, enterHead env locked (if remap.addr ≠ head.mapbase then .zero else head))

/-- `wrs_shm_alloc`; the last byte of the block is written through the descriptor. -/
def wrsShmAlloc (head : ShmHead) (headptr getpid size : Word) : Option Word × ShmHead :=
  if head.pid ≠ getpid then (none, head)
  else if head.dataOff + head.dataSize + size > BitVec.ofNat 32 wrsShmMaxSize then (none, head)
  else
    let nextptr := headptr + head.dataOff + head.dataSize
    let head := { head with dataSize := head.dataSize + ((size + 7) &&& ~~~(7 : Word)) }
    let head := head.clear (head.dataOff + head.dataSize - 1).toNat 1
    (some nextptr, head.clear (nextptr - headptr).toNat size.toNat)

def wrsShmFollow (head : ShmHead) (headptr ptr : Word) : Option Word :=
  if ptr < head.mapbase ∨ ptr > head.mapbase + BitVec.ofNat 32 wrsShmMaxSize then none
  else some (headptr + (ptr - head.mapbase))

def wrsShmPut (head : ShmHead) (getpid : Word) : ShmHead :=
  if head.pid = getpid then { head with pid := 0 } else head

/-! ### Sessions -/

/-- A block that was handed out, at its address in the writer. -/
structure Area where
  ptr : Word
  size : Word
deriving DecidableEq, Repr

def Area.first (a : Area) : Nat := a.ptr.toNat

/-- One past the last byte. -/
def Area.past (a : Area) : Nat := a.ptr.toNat + a.size.toNat

def Area.Contains (a : Area) (x : Nat) : Prop := a.first ≤ x ∧ x < a.past

def Area.Apart (a b : Area) : Prop := ∀ x, ¬(a.Contains x ∧ b.Contains x)

/-- Behind the header and below the end of the segment. -/
def Area.Inside (base : Word) (a : Area) : Prop :=
  base.toNat + sizeofHead ≤ a.first ∧ a.past ≤ base.toNat + wrsShmMaxSize

structure Segment where
  head : ShmHead
  /-- `getpid()` of the running writer -/
  writer : Option Word
  /-- where the last writer has the segment; 0 before the first one -/
  base : Word
  /-- the areas that are still referenced -/
  live : List Area
  /-- those of them that the last writer kept although it entered with an empty `data_size` -/
  kept : List Area

def Segment.fresh : Segment := ⟨.zero, none, 0, [], []⟩

/-- The block `wrs_shm_alloc` hands out next. -/
def Segment.next (s : Segment) (size : Word) : Area :=
  ⟨s.base + s.head.dataOff + s.head.dataSize, size⟩

/-- An address in the segment, as its writer sees it. -/
def Segment.Covers (s : Segment) (x : Nat) : Prop :=
  s.base ≠ 0 ∧ s.base.toNat ≤ x ∧ x < s.base.toNat + wrsShmMaxSize

inductive SegEvent
  /-- a process enters as writer; `keep` are the areas whose pointers it goes on to use -/
  | get (nameId : Nat) (env : GetEnv) (locked : Bool) (keep : Area → Bool)
  | alloc (size : Word)
  | put
  /-- the writer exits without `wrs_shm_put`, or crashes -/
  | crash
  /-- a reader that has the segment at `reader` follows a pointer of the writer -/
  | follow (reader : MapAddr) (ptr : Word)

/-- A running writer answers `kill(pid, 0)`. -/
def Segment.see (s : Segment) (env : GetEnv) : GetEnv :=
  { env with alive := env.alive || s.writer == some s.head.pid }

/-- The segment after a writer entered. An area in a segment that was cleared is gone. -/
def Segment.enter (s : Segment) (pid : Word) (map : MapAddr) (head : ShmHead)
    (keep : Area → Bool) : Segment :=
  let live := if head.mapbase = 0 then [] else s.live.filter keep
  { head := head
    writer := some pid
    base := map.addr
    live := live
    kept := if head.dataSize = 0 then live else s.kept.filter keep }

/-- Entering changes nothing when it fails. -/
def segGet (s : Segment) (nameId : Nat) (env : GetEnv) (locked : Bool) (keep : Area → Bool) :
    Segment :=
  match wrsShmGet nameId (s.see env) locked s.head with
  | .error _ => s
  | .ok (map, head) => s.enter env.pid map head keep

def segAlloc (s : Segment) (pid size : Word) : Segment :=
  match wrsShmAlloc s.head s.base pid size with
  | (none, head) => { s with head := head }
  | (some ptr, head) => { s with head := head, live := ⟨ptr, size⟩ :: s.live }

def segStep (s : Segment) : SegEvent → Segment
  | .get nameId env locked keep => segGet s nameId env locked keep
  | .alloc size =>
    match s.writer with
    | none => s
    | some pid => segAlloc s pid size
  | .put =>
    match s.writer with
    | none => s
    | some pid => { s with head := wrsShmPut s.head pid, writer := none }
  | .crash => { s with writer := none }
  | .follow _ _ => s

/-- What a call of `wrs_shm_alloc` should do. -/
def Segment.AllocGood (s : Segment) (pid size : Word) : Prop :=
  match wrsShmAlloc s.head s.base pid size with
  | (none, head) => head = s.head
  | (some ptr, _) => ptr.toNat % 8 = 0 ∧ Area.Inside s.base ⟨ptr, size⟩ ∧
      ∀ a ∈ s.live, a.Apart ⟨ptr, size⟩

/-- What an allocation and a reader should find. -/
def Segment.Good (s : Segment) : SegEvent → Prop
  | .alloc size => ∀ pid, s.writer = some pid → s.AllocGood pid size
  | .follow reader ptr =>
    (∀ a ∈ s.live, a.Contains ptr.toNat →
      wrsShmFollow s.head reader.addr ptr = some (reader.addr + (ptr - s.base))) ∧
    (¬s.Covers ptr.toNat → wrsShmFollow s.head reader.addr ptr = none)
  | .get _ _ _ _ | .put | .crash => True

/-! ### When the sessions keep to this -/

/-- A kept area stays clear of the block from `first` to `past`. -/
def Area.Clears (a : Area) (first past : Nat) : Prop :=
  a.size = 0 ∨ past ≤ first ∨ a.past ≤ first ∨ past ≤ a.first

/-- An allocation finds a header that was not cleared, a size that the check adds without
overflow, and no area in its way that was kept when `data_size` was reset. A followed pointer is
not the end of the segment or, below a cleared header, lies in the segment or above the size. -/
def Segment.Allowed (s : Segment) : SegEvent → Prop
  | .alloc size => s.writer ≠ none →
      s.head.dataOff + s.head.dataSize + size ≤ BitVec.ofNat 32 wrsShmMaxSize →
      s.head.mapbase ≠ 0 ∧
      s.head.dataOff.toNat + s.head.dataSize.toNat + size.toNat < 2 ^ 32 ∧
      ∀ a ∈ s.kept, a.Clears (s.next size).first (s.next size).past
  | .follow _ ptr =>
    if s.head.mapbase = 0 then s.Covers ptr.toNat ∨ wrsShmMaxSize < ptr.toNat
    else ptr.toNat ≠ s.head.mapbase.toNat + wrsShmMaxSize
  | .get _ _ _ _ | .put | .crash => True

/-! ### The header under an allocation -/

private theorem clearBytes_before {pos len offset : Nat} (v : Word) (before : offset + 4 ≤ pos) :
    clearBytes pos len offset v = v := by
  have missed (i : Nat) (byte : i < 4) : ¬(pos ≤ offset + i ∧ offset + i < pos + len) := by omega
  simp [clearBytes, List.range_succ, missed 1, missed 2, missed 3, show ¬pos ≤ offset by omega]

private theorem clearBytes_zero (pos len offset : Nat) : clearBytes pos len offset 0 = 0 := by
  simp [clearBytes, List.range_succ]

/-- Clearing from the last byte of the header on is harmless, if that byte was zero. -/
theorem ShmHead.clear_behind {head : ShmHead} {pos : Nat} (len : Nat) (behind : 71 ≤ pos)
    (last : pos = 71 → head.dataSize = 0) : head.clear pos len = head := by
  have size : clearBytes pos len 68 head.dataSize = head.dataSize := by
    by_cases reached : pos = 71
    · rw [last reached, clearBytes_zero]
    · exact clearBytes_before _ (by omega)
  have before (offset : Nat) (v : Word) (early : offset ≤ 56) :
      clearBytes pos len offset v = v := clearBytes_before v (by omega)
  simp [ShmHead.clear, before, size]

private theorem low_bits_clear (x : Word) : x &&& ~~~(7 : Word) = (x >>> 3) <<< 3 := by
  have mask : ∀ i : Fin 32, (~~~(7 : Word))[i.1] = !decide (i.1 < 3) := by decide
  ext i bound
  rw [BitVec.getElem_and, mask ⟨i, bound⟩]
  by_cases low : i < 3
  · simp [low]
  · simp [low, BitVec.getLsbD_eq_getElem, bound, show 3 + (i - 3) = i by omega]

/-- `(size + 7) & ~7` -/
theorem round_up_toNat (size : Word) (small : size.toNat + 7 < 2 ^ 32) :
    ((size + 7) &&& ~~~(7 : Word)).toNat = (size.toNat + 7) / 8 * 8 := by
  have sum : (size + 7).toNat = size.toNat + 7 := by
    rw [BitVec.toNat_add]
    exact Nat.mod_eq_of_lt small
  rw [low_bits_clear, BitVec.toNat_shiftLeft, BitVec.toNat_ushiftRight, sum, Nat.shiftLeft_eq,
    Nat.shiftRight_eq_div_pow]
  exact Nat.mod_eq_of_lt (by omega)

private theorem wrsShmAlloc_refused {head : ShmHead} {headptr getpid size : Word}
    (refused : head.pid ≠ getpid ∨
      ¬head.dataOff + head.dataSize + size ≤ BitVec.ofNat 32 wrsShmMaxSize) :
    wrsShmAlloc head headptr getpid size = (none, head) := by
  unfold wrsShmAlloc
  split
  · rfl
  next own =>
    rw [if_pos (BitVec.not_le.mp (refused.resolve_left own))]

private theorem wrsShmAlloc_taken {head : ShmHead} (headptr : Word) {getpid size : Word}
    (own : head.pid = getpid)
    (fits : head.dataOff + head.dataSize + size ≤ BitVec.ofNat 32 wrsShmMaxSize) :
    ∃ after, wrsShmAlloc head headptr getpid size =
      (some (headptr + head.dataOff + head.dataSize), after) := by
  unfold wrsShmAlloc
  rw [if_neg (not_not.mpr own), if_neg (BitVec.not_lt.mpr fits)]
  exact ⟨_, rfl⟩

/-! ### The invariant of the sessions -/

/-- The header of a segment that its writer has at its `mapbase`. -/
structure Segment.Laid (s : Segment) : Prop where
  mapbase : s.head.mapbase = s.base
  nonzero : s.base ≠ 0
  dataOff : s.head.dataOff = BitVec.ofNat 32 sizeofHead
  aligned : s.head.dataSize.toNat % 8 = 0
  bounded : sizeofHead + s.head.dataSize.toNat ≤ wrsShmMaxSize

/-- The header of a new segment, or of one that was cleared because it moved. -/
structure Segment.Cleared (s : Segment) : Prop where
  mapbase : s.head.mapbase = 0
  dataOff : s.head.dataOff = 0
  dataSize : s.head.dataSize = 0
  empty : s.live = []

structure SegInv (s : Segment) : Prop where
  page : s.base.toNat % 4096 = 0
  fits : s.base.toNat + wrsShmMaxSize < 2 ^ 32
  layout : s.Laid ∨ s.Cleared
  entered : ∀ pid, s.writer = some pid → s.head.pid = pid
  inside : ∀ a ∈ s.live, a.Inside s.base
  keeps : ∀ a ∈ s.kept, a ∈ s.live
  /-- what was handed out since `data_size` was reset ends before the next block -/
  below : ∀ a ∈ s.live, a ∈ s.kept ∨
    a.past ≤ s.base.toNat + sizeofHead + s.head.dataSize.toNat

private theorem Segment.fresh_inv : SegInv Segment.fresh where
  page := rfl
  fits := by decide
  layout := .inr ⟨rfl, rfl, rfl, rfl⟩
  entered := by simp [Segment.fresh]
  inside := by simp [Segment.fresh]
  keeps := by simp [Segment.fresh]
  below := by simp [Segment.fresh]

private theorem maxSize_eq : wrsShmMaxSize = 524288 := rfl

private theorem sizeofHead_eq : sizeofHead = 72 := rfl

private theorem Area.apart_iff (a b : Area) : a.Apart b ↔ a.Clears b.first b.past := by
  have empty (c : Area) : c.size = 0 ↔ c.past = c.first := by
    rw [← BitVec.toNat_inj]
    simp [Area.past, Area.first]
  have ordered (c : Area) : c.first ≤ c.past := Nat.le_add_right _ _
  have := ordered a
  have := ordered b
  unfold Area.Clears
  rw [empty a]
  constructor
  · intro apart
    by_contra meet
    have free := apart (max a.first b.first)
    unfold Area.Contains at free
    omega
  · intro clears x both
    unfold Area.Contains at both
    omega

/-- The next block of a laid out segment, if its size does not overflow the sum. -/
theorem Segment.next_toNat {s : Segment} (inv : SegInv s) (laid : s.Laid) (size : Word) :
    (s.next size).first = s.base.toNat + sizeofHead + s.head.dataSize.toNat := by
  have := inv.fits
  have := laid.bounded
  rw [maxSize_eq] at *
  rw [sizeofHead_eq] at *
  simp only [Segment.next, Area.first, laid.dataOff, BitVec.toNat_add, BitVec.toNat_ofNat,
    sizeofHead_eq]
  omega

/-- The check of `wrs_shm_alloc`, with the sum taken modulo the word size. -/
theorem Segment.sum_toNat {s : Segment} (laid : s.Laid) (size : Word) :
    (s.head.dataOff + s.head.dataSize + size).toNat =
      (sizeofHead + s.head.dataSize.toNat + size.toNat) % 2 ^ 32 := by
  simp [laid.dataOff, BitVec.toNat_add, sizeofHead]

private theorem le_maxSize (x : Word) :
    x ≤ BitVec.ofNat 32 wrsShmMaxSize ↔ x.toNat ≤ wrsShmMaxSize :=
  BitVec.le_def

private theorem Segment.allocGood_iff {s : Segment} {pid size : Word}
    (own : s.head.pid = pid)
    (fits : s.head.dataOff + s.head.dataSize + size ≤ BitVec.ofNat 32 wrsShmMaxSize) :
    s.AllocGood pid size ↔ (s.next size).first % 8 = 0 ∧ (s.next size).Inside s.base ∧
      ∀ a ∈ s.live, a.Apart (s.next size) := by
  obtain ⟨after, taken⟩ := wrsShmAlloc_taken s.base own fits
  simp only [Segment.AllocGood, taken]
  exact Iff.rfl

/-- A laid out segment without overflow: only the kept areas can be in the way. -/
theorem Segment.alloc_laid {s : Segment} (inv : SegInv s) (laid : s.Laid) {size : Word}
    (fits : s.head.dataOff + s.head.dataSize + size ≤ BitVec.ofNat 32 wrsShmMaxSize)
    (exact : s.head.dataOff.toNat + s.head.dataSize.toNat + size.toNat < 2 ^ 32) :
    (s.next size).first % 8 = 0 ∧ (s.next size).Inside s.base ∧
      ((∀ a ∈ s.live, a.Apart (s.next size)) ↔
        ∀ a ∈ s.kept, a.Clears (s.next size).first (s.next size).past) := by
  have next := Segment.next_toNat inv laid size
  have page := inv.page
  have aligned := laid.aligned
  have offset : s.head.dataOff.toNat = 72 := by rw [laid.dataOff]; rfl
  have past : (s.next size).past = (s.next size).first + size.toNat := rfl
  have room := (le_maxSize _).mp fits
  -- nothing wraps, since the segment is smaller than 2^32
  rw [Segment.sum_toNat laid, Nat.mod_eq_of_lt (by rw [sizeofHead_eq]; omega)] at room
  rw [sizeofHead_eq] at next room
  refine ⟨by omega, ⟨?_, ?_⟩, ?_, ?_⟩
  · rw [sizeofHead_eq]
    omega
  · omega
  · intro apart a kept
    exact (Area.apart_iff a _).mp (apart a (inv.keeps a kept))
  · intro clears a live
    rw [Area.apart_iff]
    -- an area lies below the new one, or was kept by a writer
    rcases inv.below a live with kept | below
    · exact clears a kept
    · rw [sizeofHead_eq] at below
      exact .inr (.inr (.inl (by omega)))

private theorem Segment.alloc_good_iff {s : Segment} (inv : SegInv s) (size : Word) :
    s.Good (.alloc size) ↔ s.Allowed (.alloc size) := by
  cases running : s.writer with
  | none => simp [Segment.Good, Segment.Allowed, running]
  | some pid =>
    have own := inv.entered pid running
    simp only [Segment.Good, Segment.Allowed, running, Option.some.injEq, forall_eq', ne_eq,
      reduceCtorEq, not_false_eq_true, true_imp_iff]
    by_cases fits : s.head.dataOff + s.head.dataSize + size ≤ BitVec.ofNat 32 wrsShmMaxSize
    · simp only [fits, true_imp_iff, Segment.allocGood_iff own fits]
      rcases inv.layout with laid | cleared
      · constructor
        · rintro ⟨-, inside, apart⟩
          -- a block inside the segment: the sum did not wrap
          have next := Segment.next_toNat inv laid size
          have past : (s.next size).past = (s.next size).first + size.toNat := rfl
          have offset : s.head.dataOff.toNat = 72 := by rw [laid.dataOff]; rfl
          have bound := inside.2
          have fitting := inv.fits
          rw [sizeofHead_eq] at next
          have exact : s.head.dataOff.toNat + s.head.dataSize.toNat + size.toNat < 2 ^ 32 := by
            omega
          exact ⟨laid.mapbase ▸ laid.nonzero, exact,
            (Segment.alloc_laid inv laid fits exact).2.2.mp apart⟩
        · rintro ⟨-, exact, clears⟩
          obtain ⟨aligned, inside, apart⟩ := Segment.alloc_laid inv laid fits exact
          exact ⟨aligned, inside, apart.mpr clears⟩
      · -- the block of a cleared header starts at the header itself
        have base : (s.next size).first = s.base.toNat := by
          simp [Segment.next, Area.first, cleared.dataOff, cleared.dataSize]
        constructor
        · rintro ⟨-, inside, -⟩
          have first := inside.1
          rw [base, sizeofHead_eq] at first
          omega
        · rintro ⟨mapped, -, -⟩
          exact absurd cleared.mapbase mapped
    · simp only [fits, false_imp_iff, iff_true]
      simp [Segment.AllocGood, wrsShmAlloc_refused (.inr fits)]

/-! ### Following pointers -/

/-- `wrs_shm_follow` takes in the address behind the segment, too. -/
theorem wrsShmFollow_eq {head : ShmHead} {headptr ptr : Word}
    (fits : head.mapbase.toNat + wrsShmMaxSize < 2 ^ 32) :
    wrsShmFollow head headptr ptr =
      if head.mapbase.toNat ≤ ptr.toNat ∧ ptr.toNat ≤ head.mapbase.toNat + wrsShmMaxSize then
        some (headptr + (ptr - head.mapbase))
      else none := by
  have last : (head.mapbase + BitVec.ofNat 32 wrsShmMaxSize).toNat =
      head.mapbase.toNat + wrsShmMaxSize := by
    rw [BitVec.toNat_add]
    exact Nat.mod_eq_of_lt fits
  simp only [wrsShmFollow, BitVec.lt_def, gt_iff_lt, last, ← Nat.not_le, ← not_and_or, ite_not]

private theorem Segment.follow_good_iff {s : Segment} (inv : SegInv s) (reader : MapAddr)
    (ptr : Word) :
    s.Good (.follow reader ptr) ↔ s.Allowed (.follow reader ptr) := by
  have fits := inv.fits
  -- the header is in place, or was cleared with the segment
  rcases inv.layout with laid | cleared
  · simp only [Segment.Good, Segment.Allowed, Segment.Covers, laid.nonzero, ↓reduceIte,
      wrsShmFollow_eq (laid.mapbase.symm ▸ fits), laid.mapbase, ne_eq, not_false_eq_true, true_and]
    constructor
    · rintro ⟨-, rejects⟩ past
      have rejected := rejects (by omega)
      rw [if_pos (by omega)] at rejected
      cases rejected
    · intro other
      constructor
      · intro a live contains
        have low := (inv.inside a live).1
        have high := (inv.inside a live).2
        have first := contains.1
        have past := contains.2
        exact if_pos (by omega)
      · intro outside
        exact if_neg (by omega)
  · have small : s.head.mapbase.toNat + wrsShmMaxSize < 2 ^ 32 := by
      rw [cleared.mapbase]
      decide
    simp only [Segment.Good, Segment.Allowed, cleared.mapbase, wrsShmFollow_eq small, cleared.empty]
    simp [Classical.or_iff_not_imp_left]

/-! ### Steps -/

/-- An allocation without overflow only moves `data_size`: the bytes it clears lie behind it. -/
theorem Segment.alloc_head {s : Segment} (laid : s.Laid) {pid size : Word}
    (own : s.head.pid = pid)
    (room : sizeofHead + s.head.dataSize.toNat + size.toNat ≤ wrsShmMaxSize) :
    wrsShmAlloc s.head s.base pid size = (some (s.next size).ptr,
      { s.head with dataSize := s.head.dataSize + ((size + 7) &&& ~~~(7 : Word)) }) := by
  have rounded := round_up_toNat size (by rw [maxSize_eq] at room; omega)
  have fits : s.head.dataOff + s.head.dataSize + size ≤ BitVec.ofNat 32 wrsShmMaxSize := by
    rw [le_maxSize, Segment.sum_toNat laid]
    exact (Nat.mod_le _ _).trans room
  rw [maxSize_eq, sizeofHead_eq] at room
  unfold wrsShmAlloc
  rw [if_neg (not_not.mpr own), if_neg (BitVec.not_lt.mpr fits)]
  generalize grown : s.head.dataSize + ((size + 7) &&& ~~~(7 : Word)) = dataSize
  have total : dataSize.toNat = s.head.dataSize.toNat + (size.toNat + 7) / 8 * 8 := by
    rw [← grown, BitVec.toNat_add, rounded]
    exact Nat.mod_eq_of_lt (by omega)
  -- the byte that is written first is the last one of the segment
  have last : (s.head.dataOff + dataSize - 1).toNat = 71 + dataSize.toNat := by
    have one : (1 : Word).toNat = 1 := rfl
    rw [laid.dataOff, sizeofHead_eq, BitVec.toNat_sub, BitVec.toNat_add, BitVec.toNat_ofNat, one]
    omega
  have start : (s.base + s.head.dataOff + s.head.dataSize - s.base).toNat =
      72 + s.head.dataSize.toNat := by
    have offset : s.base + s.head.dataOff + s.head.dataSize - s.base =
        s.head.dataOff + s.head.dataSize := by
      rw [BitVec.add_assoc, BitVec.add_comm, BitVec.add_sub_cancel]
    rw [offset, laid.dataOff, sizeofHead_eq, BitVec.toNat_add, BitVec.toNat_ofNat]
    omega
  -- the areas lie behind the header, so clearing one leaves it alone
  have lastByte (head : ShmHead) (empty : dataSize = 0 → head.dataSize = 0) :
      head.clear (s.head.dataOff + dataSize - 1).toNat 1 = head :=
    ShmHead.clear_behind 1 (by omega) fun atLast =>
      empty (BitVec.eq_of_toNat_eq (show dataSize.toNat = 0 by omega))
  have block (head : ShmHead) :
      head.clear (s.base + s.head.dataOff + s.head.dataSize - s.base).toNat size.toNat = head :=
    ShmHead.clear_behind _ (by omega) (by omega)
  dsimp only
  rw [lastByte _ id, block]
  rfl

private theorem segAlloc_inv {s : Segment} (inv : SegInv s) {pid size : Word}
    (running : s.writer = some pid)
    (allowed : s.Allowed (.alloc size)) : SegInv (segAlloc s pid size) := by
  by_cases fits : s.head.dataOff + s.head.dataSize + size ≤ BitVec.ofNat 32 wrsShmMaxSize
  · have own := inv.entered pid running
    obtain ⟨mapped, exact, clears⟩ := allowed (by simp [running]) fits
    have laid := inv.layout.resolve_right fun cleared => mapped cleared.mapbase
    obtain ⟨-, inside, -⟩ := Segment.alloc_laid inv laid fits exact
    have first := Segment.next_toNat inv laid size
    have bound : (s.next size).first + size.toNat ≤ _ := inside.2
    have room : sizeofHead + s.head.dataSize.toNat + size.toNat ≤ wrsShmMaxSize := by omega
    -- the segment grows by the size, rounded up to eight
    have moved : segAlloc s pid size =
        { s with
          head := { s.head with dataSize := s.head.dataSize + ((size + 7) &&& ~~~(7 : Word)) }
          live := s.next size :: s.live } := by
      rw [segAlloc, Segment.alloc_head laid own room]
      rfl
    -- the rounded size does not wrap
    have rounded := round_up_toNat size (by rw [maxSize_eq] at room; omega)
    have total : (s.head.dataSize + ((size + 7) &&& ~~~(7 : Word))).toNat =
        s.head.dataSize.toNat + (size.toNat + 7) / 8 * 8 := by
      rw [BitVec.toNat_add, rounded]
      rw [maxSize_eq] at room
      exact Nat.mod_eq_of_lt (by omega)
    have aligned := laid.aligned
    rw [moved]
    exact {
      page := inv.page
      fits := inv.fits
      layout := .inl {
        mapbase := laid.mapbase
        nonzero := laid.nonzero
        dataOff := laid.dataOff
        aligned := by
          dsimp only
          omega
        bounded := by
          dsimp only
          rw [maxSize_eq, sizeofHead_eq] at *
          omega }
      entered := inv.entered
      inside := List.forall_mem_cons.mpr ⟨inside, inv.inside⟩
      keeps := fun a kept => List.mem_cons_of_mem _ (inv.keeps a kept)
      below := by
        dsimp only
        rw [total]
        refine List.forall_mem_cons.mpr ⟨.inr ?_, fun a live => (inv.below a live).imp_right ?_⟩
        · have past : (s.next size).past = (s.next size).first + size.toNat := rfl
          omega
        · intro below
          omega }
  · rw [segAlloc, wrsShmAlloc_refused (.inr fits)]
    exact inv

/-- A writer that enters takes over an empty segment, the segment of its predecessor at the same
address, or a cleared one. -/
theorem wrsShmGet_ok {nameId : Nat} {env : GetEnv} {locked : Bool} {head after : ShmHead}
    {map : MapAddr} (entered : wrsShmGet nameId env locked head = .ok (map, after)) :
    ((head.mapbase = 0 ∨ head.mapbase = map.addr) ∧ after = enterHead env locked
      { head with
        mapbase := map.addr, dataOff := BitVec.ofNat 32 sizeofHead, dataSize := 0 }) ∨
    (head.mapbase ≠ 0 ∧ map.addr = head.mapbase ∧ after = enterHead env locked head) ∨
    (head.mapbase ≠ 0 ∧ map.addr ≠ head.mapbase ∧ after = enterHead env locked .zero) := by
  unfold wrsShmGet at entered
  split at entered
  · cases entered
  split at entered
  · cases entered
  next first mapped =>
  split at entered
  · cases entered
  split at entered
  next found =>
    cases entered
    exact .inl ⟨found, rfl⟩
  next moved =>
    obtain ⟨nonzero, -⟩ := not_or.mp moved
    split at entered
    · cases entered
    next remapped =>
      cases entered
      -- a segment mapped elsewhere is started anew
      by_cases same : map.addr = head.mapbase
      · exact .inr (.inl ⟨nonzero, same, by rw [if_neg (not_not.mpr same)]⟩)
      · exact .inr (.inr ⟨nonzero, same, by rw [if_pos same]⟩)

/-- A header that was not cleared has to fit the areas that are kept. -/
theorem Segment.enter_inv {s : Segment} (inv : SegInv s) {pid : Word} {map : MapAddr}
    {head : ShmHead} (keep : Area → Bool) (own : head.pid = pid)
    (cleared : head.mapbase = 0 → head.dataOff = 0 ∧ head.dataSize = 0)
    (laid : head.mapbase ≠ 0 → head.mapbase = map.addr ∧
      head.dataOff = BitVec.ofNat 32 sizeofHead ∧ head.dataSize.toNat % 8 = 0 ∧
      sizeofHead + head.dataSize.toNat ≤ wrsShmMaxSize ∧ (s.live = [] ∨ map.addr = s.base) ∧
      (head.dataSize = 0 ∨ head.dataSize = s.head.dataSize)) :
    SegInv (s.enter pid map head keep) := by
  -- a header without a base is one that was cleared
  by_cases zero : head.mapbase = 0
  · obtain ⟨dataOff, dataSize⟩ := cleared zero
    have live : (s.enter pid map head keep).live = [] := if_pos zero
    have kept : (s.enter pid map head keep).kept = [] := (if_pos dataSize).trans live
    exact {
      page := map.page
      fits := map.fits
      layout := .inr ⟨zero, dataOff, dataSize, live⟩
      entered := fun _ running => own.trans (Option.some.inj running)
      inside := by simp [live]
      keeps := by simp [kept]
      below := by simp [live] }
  · obtain ⟨mapbase, dataOff, aligned, bounded, base, size⟩ := laid zero
    have live : (s.enter pid map head keep).live = s.live.filter keep := if_neg zero
    have known : ∀ a ∈ (s.enter pid map head keep).live, a ∈ s.live := by
      rw [live]
      exact fun a member => (List.mem_filter.mp member).1
    have inside : ∀ a ∈ (s.enter pid map head keep).live, a.Inside map.addr := by
      intro a member
      rcases base with none | same
      · simp [live, none] at member
      · exact same ▸ inv.inside a (known a member)
    -- the sizes are reset with the header, or kept with it
    have kept : (s.enter pid map head keep).kept = (s.enter pid map head keep).live ∨
        head.dataSize = s.head.dataSize ∧
          (s.enter pid map head keep).kept = s.kept.filter keep := by
      by_cases reset : head.dataSize = 0
      · exact .inl (if_pos reset)
      · exact .inr ⟨size.resolve_left reset, if_neg reset⟩
    exact {
      page := map.page
      fits := map.fits
      layout := .inl ⟨mapbase, map.nonzero, dataOff, aligned, bounded⟩
      entered := fun _ running => own.trans (Option.some.inj running)
      inside := inside
      keeps := by
        rcases kept with all | ⟨-, some⟩
        · exact fun a member => all ▸ member
        · rw [some, live]
          intro a member
          have ⟨before, wanted⟩ := List.mem_filter.mp member
          exact List.mem_filter.mpr ⟨inv.keeps a before, wanted⟩
      below := by
        intro a member
        rcases kept with all | ⟨same, some⟩
        · exact .inl (all ▸ member)
        · rcases base with none | addr
          · simp [live, none] at member
          rw [live] at member
          have ⟨before, wanted⟩ := List.mem_filter.mp member
          rw [some]
          refine (inv.below a before).imp (fun kept => List.mem_filter.mpr ⟨kept, wanted⟩) ?_
          intro below
          change _ ≤ map.addr.toNat + sizeofHead + head.dataSize.toNat
          rwa [addr, same] }

private theorem segGet_inv {s : Segment} (inv : SegInv s) (nameId : Nat) (env : GetEnv)
    (locked : Bool) (keep : Area → Bool) : SegInv (segGet s nameId env locked keep) := by
  unfold segGet
  split
  · exact inv
  next map head entered =>
  -- the header is written anew, kept, or cleared because it names another address
  rcases wrsShmGet_ok entered with ⟨found, rfl⟩ | ⟨mapped, same, rfl⟩ | ⟨-, -, rfl⟩
  · -- `data_size` starts over; only at the same address there are areas to keep
    have base : s.live = [] ∨ map.addr = s.base := by
      rcases inv.layout with laid | cleared
      · exact .inr ((found.resolve_left (laid.mapbase ▸ laid.nonzero)).symm.trans laid.mapbase)
      · exact .inl cleared.empty
    have headerFits : sizeofHead + (0 : Word).toNat ≤ wrsShmMaxSize := by decide
    exact Segment.enter_inv inv keep rfl (fun zero => absurd zero map.nonzero)
      fun _ => ⟨rfl, rfl, rfl, headerFits, base, .inl rfl⟩
  · have laid := inv.layout.resolve_right fun cleared => mapped cleared.mapbase
    exact Segment.enter_inv inv keep rfl (fun zero => absurd zero mapped)
      fun _ => ⟨same.symm, laid.dataOff, laid.aligned, laid.bounded,
        .inr (same.trans laid.mapbase), .inr rfl⟩
  · exact Segment.enter_inv inv keep rfl (fun _ => ⟨rfl, rfl⟩) fun mapped => absurd rfl mapped

/-- Only the `pid` of the header says that there is a writer. -/
theorem SegInv.released {s : Segment} (inv : SegInv s) (pid : Word) :
    SegInv { s with head := { s.head with pid := pid }, writer := none } where
  page := inv.page
  fits := inv.fits
  layout := inv.layout.imp
    (fun laid => ⟨laid.mapbase, laid.nonzero, laid.dataOff, laid.aligned, laid.bounded⟩)
    fun cleared => ⟨cleared.mapbase, cleared.dataOff, cleared.dataSize, cleared.empty⟩
  entered := by simp
  inside := inv.inside
  keeps := inv.keeps
  below := inv.below

private theorem segStep_inv (s : Segment) (e : SegEvent) (inv : SegInv s) (allowed : s.Allowed e) :
    SegInv (segStep s e) := by
  -- only an allocation and a new session move the areas
  cases e with
  | get nameId env locked keep => exact segGet_inv inv nameId env locked keep
  | alloc size =>
    cases running : s.writer with
    | none => simpa only [segStep, running] using inv
    | some pid => simpa only [segStep, running] using segAlloc_inv inv running allowed
  | put =>
    cases running : s.writer with
    | none => simpa only [segStep, running] using inv
    | some pid =>
      simp only [segStep, running, wrsShmPut]
      rw [if_pos (inv.entered pid running)]
      exact inv.released 0
  | crash => exact inv.released s.head.pid
  | follow reader ptr => exact inv

/-- An event is good exactly if it is allowed. -/
theorem Segment.good_iff (s : Segment) (e : SegEvent) (inv : SegInv s) :
    s.Good e ↔ s.Allowed e := by
  cases e with
  | get nameId env locked keep => exact Iff.rfl
  | alloc size => exact Segment.alloc_good_iff inv size
  | put => exact Iff.rfl
  | crash => exact Iff.rfl
  | follow reader ptr => exact Segment.follow_good_iff inv reader ptr

/-- Over any sessions, allocation and following keep to their contract exactly as long as every
call meets its condition. -/
theorem sessions_good_iff (es : List SegEvent) :
    Along Segment.Good segStep Segment.fresh es ↔
      Along Segment.Allowed segStep Segment.fresh es :=
  Along.congr_inv SegInv segStep_inv Segment.good_iff Segment.fresh_inv

/-! ### `rtu_fd_init` after a crash -/

/-- The areas `struct rtu_shmem_header` already points to. -/
structure RtuAreas where
  filters : Bool
  vlans : Bool
  mirror : Bool
  rtuPorts : Bool

/-- The allocations of `rtu_fd_init`; the header is there after the first run. -/
def rtuFdInitAllocs (pidsequence : Word) (areas : RtuAreas) : List SegEvent :=
  (if pidsequence = 1 then [.alloc 20] else []) ++
  (if areas.filters then [] else [.alloc (352 * 512)]) ++
  (if areas.vlans then [] else [.alloc (28 * 4096)]) ++
  (if areas.mirror then [] else [.alloc 16]) ++
  (if areas.rtuPorts then [] else [.alloc (12 * 32)])

/-- `WRS_SHM_MAPADDR + WRS_SHM_MAX_SIZE * wrs_shm_rtu` -/
def rtuMapAddr : MapAddr := ⟨0x10080000, by decide, by decide, by decide⟩

def rtudEnv (pid : Word) (running : pid ≠ 0) : GetEnv :=
  ⟨pid, running, 3, false, .ok rtuMapAddr, .ok rtuMapAddr⟩

/-- A first run that dies after the allocation of the filters, and the next one. -/
def rtudRestart : List SegEvent :=
  .get 1 (rtudEnv 700 (by decide)) true (fun _ => true) ::
    (rtuFdInitAllocs 1 ⟨false, false, false, false⟩).take 2 ++
  .crash :: .get 1 (rtudEnv 900 (by decide)) true (fun _ => true) ::
    rtuFdInitAllocs 2 ⟨true, false, false, false⟩

/-- The VLAN table of the second run lies over the header and the filters of the first. -/
theorem sessions_overlap : ¬Along Segment.Good segStep Segment.fresh rtudRestart := by
  intro along
  have vlans := along.2.2.2.2.2.1 900 rfl
  have hdr := vlans.2.2 ⟨0x10080048, 20⟩ (by decide)
  exact hdr 0x10080048 ⟨⟨by decide, by decide⟩, by decide, by decide⟩

end WrSwitch.Shm
