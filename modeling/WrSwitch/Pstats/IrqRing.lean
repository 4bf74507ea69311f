import WrSwitch.Machine.Ring
import WrSwitch.Pstats.System

/-!
# The ring of interrupt words

The handler stores what it reads in a ring of 16 slots that the tasklet empties. Both indices
are kept modulo 16, so a full ring looks like an empty one and their difference never
reaches the size that the tasklet checks for.
-/
namespace WrSwitch.Pstats

open Machine

variable (cfg : Config)

/-! ### What is asked of the ring -/

/-- The tasklet is between the load of a ring entry and the update of `irqs_tail`. -/
def TletPc.inBody : TletPc → Bool
  | .idle | .full | .while => false
  | .load | .port _ _ | .cntr _ _ _ | .advance => true

/-- The tasklet neither runs nor is going to. -/
def AtRest (s : System) : Prop := s.tlet = .idle ∧ s.scheduled = false

/-- The counter has one more of its upper part after the step. -/
def Added (s s' : System) (p c : Nat) : Prop :=
  s'.dev.cntrs p c = s.dev.cntrs p c + (1 : BitVec 64) <<< pstatsMsbShift

instance (s s' : System) (p c : Nat) : Decidable (Added s s' p c) :=
  inferInstanceAs (Decidable (_ = _))

/-- A step of the tasklet changes no counter but by such an addition. -/
def AddsOnly (s : System) : Event cfg → Prop
  | .tlet => ∀ p c, (s.tletStep cfg).dev.cntrs p c = s.dev.cntrs p c ∨ Added s (s.tletStep cfg) p c
  | .count _ _ | .irq _ _ | .read _ | .zero _ => True

/-- How often the tasklet adds to a counter in a run. -/
def additions (p c : Nat) : System → List (Event cfg) → Nat
  | _, [] => 0
  | s, .tlet :: es =>
    (if Added s (s.tletStep cfg) p c then 1 else 0) + additions p c (s.tletStep cfg) es
  | s, e :: es => additions p c (s.step cfg e) es

/-- How often the handler reads a flag of the counter. -/
def readings (p c : Nat) : List (Event cfg) → Nat
  | [] => 0
  | .irq _ flags :: es => (if Flagged cfg flags p c then 1 else 0) + readings p c es
  | _ :: es => readings p c es

/-- No flag is added to its counter before it was read, and at rest all that were read are added,
once each, and nothing else is. Or else the ring-full check has printed its warning. -/
def Delivered (es : List (Event cfg)) : Prop :=
  (Along (AddsOnly cfg) (System.step cfg) .init es ∧
    (∀ p < cfg.nports, ∀ c < cfg.counters,
      additions cfg p c .init es ≤ readings cfg p c es) ∧
    (AtRest (run (System.step cfg) .init es) → ∀ p < cfg.nports, ∀ c < cfg.counters,
      additions cfg p c .init es = readings cfg p c es)) ∨
  (run (System.step cfg) .init es).warned = true

/-- The handler finds room in the ring, one slot of which is kept free except while an entry
is processed, and the interrupt word has a bit for each port with a flag. -/
def Roomy (s : System) : Event cfg → Prop
  | .irq irqs flags =>
    (if s.tlet.inBody then s.dev.irqsHead ≠ s.dev.irqsTail
      else (s.dev.irqsHead + 1) % pstatsIrqbufsz ≠ s.dev.irqsTail) ∧
    ∀ p c, Flagged cfg flags p c → bitSet irqs p = true
  | .count _ _ | .tlet | .read _ | .zero _ => True

/-! ### Flags on their way -/

/-- The tasklet has yet to come to the counter in the entry it is at. -/
def TletPc.ahead : TletPc → Nat → Nat → Bool
  | .idle, _, _ | .full, _, _ | .while, _, _ | .load, _, _ => true
  | .port _ q, p, _ => q ≤ p
  | .cntr _ q d, p, c => q < p ∨ q = p ∧ d ≤ c
  | .advance, _, _ => false

/-- The entry has a flag that the tasklet sees. -/
def stored (dev : CntrsDev) (p c i : Nat) : Bool :=
  bitSet (dev.portIrqs i) p && bitSet (dev.overflows i p) c

/-- Flags of a counter in an entry that are not added yet. -/
def waiting (s : System) (p c i : Nat) : Nat :=
  (stored s.dev p c i && (i != s.dev.irqsTail || s.tlet.ahead p c)).toNat

def waitingSum (s : System) (p c n : Nat) : Nat :=
  ringSum pstatsIrqbufsz (waiting s p c) s.dev.irqsTail n

/-- The ring holds `n` entries, and each flag that was read is added or waits in it. -/
structure Held (s : System) (n : Nat) : Prop where
  tail : s.dev.irqsTail < pstatsIrqbufsz
  head : s.dev.irqsHead = (s.dev.irqsTail + n) % pstatsIrqbufsz
  room : n ≤ pstatsIrqbufsz
  outside : s.tlet.inBody = false → n < pstatsIrqbufsz
  inside : s.tlet.inBody = true → 0 < n
  port : ∀ irqs p, s.tlet = .port irqs p → irqs = s.dev.portIrqs s.dev.irqsTail
  cntr : ∀ irqs p c, s.tlet = .cntr irqs p c →
    irqs = s.dev.portIrqs s.dev.irqsTail ∧ bitSet irqs p = true ∧ p < cfg.nports ∧
      c ≤ cfg.counters
  wake : s.tlet = .idle → s.scheduled = false → n = 0
  quiet : s.warned = false
  account : ∀ p < cfg.nports, ∀ c < cfg.counters,
    s.fetched p c = s.added p c + waitingSum s p c n

private theorem held_init : Held cfg .init 0 where
  tail := by decide
  head := rfl
  room := by decide
  outside := fun _ => by decide
  inside := fun body => by cases body
  port := fun _ _ at_port => by cases at_port
  cntr := fun _ _ _ at_cntr => by cases at_cntr
  wake := fun _ _ => rfl
  quiet := rfl
  account := fun _ _ _ _ => rfl

variable {cfg}

/-! ### Flags in the counters -/

private theorem addOverflow_added (s : System) (p c : Nat) :
    (addOverflow p c s.dev).cntrs p c = s.dev.cntrs p c + (1 : BitVec 64) <<< pstatsMsbShift :=
  setAt_self _ _ _ _

private theorem addOverflow_other (s : System) {p c p' c' : Nat} (other : ¬(p = p' ∧ c = c')) :
    (addOverflow p' c' s.dev).cntrs p c = s.dev.cntrs p c :=
  setAt_other _ _ other

/-- What the tasklet has added is what the counters show of it. -/
theorem tletStep_added (s : System) (p c : Nat) :
    (s.tletStep cfg).added p c =
      s.added p c + if Added s (s.tletStep cfg) p c then 1 else 0 := by
  -- adding the overflow always changes the counter
  have same (v : BitVec 64) : ¬v = v + (1 : BitVec 64) <<< pstatsMsbShift := by
    rw [BitVec.self_eq_add_right]
    decide
  rcases s.tletStep_adds cfg with ⟨cntrs, added⟩ | ⟨p', c', cntrs, added⟩
  · have none : ¬Added s (s.tletStep cfg) p c := by
      unfold Added
      rw [cntrs]
      exact same _
    rw [added, if_neg none, Nat.add_zero]
  · by_cases here : p = p' ∧ c = c'
    · obtain ⟨rfl, rfl⟩ := here
      have one : Added s (s.tletStep cfg) p c := by
        unfold Added
        rw [cntrs]
        exact addOverflow_added s p c
      rw [added, if_pos one]
      exact setAt_self _ _ _ _
    · have none : ¬Added s (s.tletStep cfg) p c := by
        unfold Added
        rw [cntrs, addOverflow_other s here]
        exact same _
      rw [added, if_neg none, Nat.add_zero]
      exact setAt_other _ _ here

private theorem run_added (es : List (Event cfg)) (s : System) (p c : Nat) :
    (run (System.step cfg) s es).added p c = s.added p c + additions cfg p c s es := by
  induction es generalizing s with
  | nil => rfl
  | cons e es ih =>
    rw [run_cons, ih]
    cases e with
    | tlet =>
      change (s.tletStep cfg).added p c + _ = _
      rw [tletStep_added, additions, Nat.add_assoc]
      rfl
    | count p' c' => rfl
    | irq irqs flags => rfl
    | read p' => rfl
    | zero p' => rfl

/-- What the handler has read is what is in the words that it was given. -/
theorem run_fetched (es : List (Event cfg)) (s : System) (p c : Nat) :
    (run (System.step cfg) s es).fetched p c = s.fetched p c + readings cfg p c es := by
  induction es generalizing s with
  | nil => rfl
  | cons e es ih =>
    rw [run_cons, ih]
    cases e with
    | irq irqs flags =>
      change (if Flagged cfg flags p c then s.fetched p c + 1 else s.fetched p c) + _ = _
      rw [readings]
      split <;> omega
    | tlet =>
      -- only the interrupt handler reads the flags
      have kept : (s.tletStep cfg).fetched = s.fetched := by
        rw [System.tletStep]
        split <;> (try split_ifs) <;> rfl
      change (s.tletStep cfg).fetched p c + _ = _
      rw [kept]
      rfl
    | count p' c' => rfl
    | read p' => rfl
    | zero p' => rfl

private theorem addsOnly (s : System) (e : Event cfg) : AddsOnly cfg s e := by
  cases e with
  | tlet =>
    intro p c
    rcases s.tletStep_adds cfg with ⟨cntrs, -⟩ | ⟨p', c', cntrs, -⟩
    · exact .inl (congrFun (congrFun cntrs p) c)
    · unfold Added
      rw [cntrs]
      by_cases here : p = p' ∧ c = c'
      · obtain ⟨rfl, rfl⟩ := here
        exact .inr (addOverflow_added s p c)
      · exact .inl (addOverflow_other s here)
  | count _ _ | irq _ _ | read _ | zero _ => trivial

/-- Only the ring, the tasklet and the flags matter. -/
theorem Held.congr {s t : System} {n : Nat} (held : Held cfg s n)
    (ring : t.dev.portIrqs = s.dev.portIrqs ∧ t.dev.overflows = s.dev.overflows)
    (indices : t.dev.irqsHead = s.dev.irqsHead ∧ t.dev.irqsTail = s.dev.irqsTail)
    (tasklet : t.tlet = s.tlet ∧ t.scheduled = s.scheduled ∧ t.warned = s.warned)
    (flags : t.fetched = s.fetched ∧ t.added = s.added) : Held cfg t n := by
  obtain ⟨portIrqs, overflows⟩ := ring
  obtain ⟨head, tail⟩ := indices
  obtain ⟨tlet, scheduled, warned⟩ := tasklet
  obtain ⟨fetched, added⟩ := flags
  -- the entries depend on the ring, the tail and the tasklet only
  have slots : waiting t = waiting s := by
    funext p c i
    simp only [waiting, stored, portIrqs, overflows, tail, tlet]
  exact {
    tail := tail ▸ held.tail
    head := by rw [head, tail, held.head]
    room := held.room
    outside := by rw [tlet]; exact held.outside
    inside := by rw [tlet]; exact held.inside
    port := by rw [tlet, portIrqs, tail]; exact held.port
    cntr := by rw [tlet, portIrqs, tail]; exact held.cntr
    wake := by rw [tlet, scheduled]; exact held.wake
    quiet := warned ▸ held.quiet
    account := by
      intro p port c cntr
      rw [waitingSum, fetched, added, slots, tail]
      exact held.account p port c cntr }

/-! ### The handler -/

/-- A free slot is left when the handler starts, and another one outside the tasklet's body. -/
theorem Held.free {s : System} {n : Nat} (held : Held cfg s n) {irqs : Word}
    {flags : Nat → Word × Word} (roomy : Roomy cfg s (.irq irqs flags)) :
    n < pstatsIrqbufsz ∧ (s.tlet.inBody = false → n + 1 < pstatsIrqbufsz) := by
  have tail := held.tail
  have head := held.head
  have room := held.room
  have slot := roomy.1
  rw [pstatsIrqbufsz] at *
  cases body : s.tlet.inBody with
  | true =>
    rw [body, if_pos rfl] at slot
    exact ⟨by omega, fun outside => by cases outside⟩
  | false =>
    have fits := held.outside body
    rw [body, if_neg Bool.false_ne_true] at slot
    rw [pstatsIrqbufsz] at fits
    exact ⟨fits, fun _ => by omega⟩

private theorem Held.waitingSum_irq {s : System} {n p c : Nat} (held : Held cfg s n) {irqs : Word}
    {flags : Nat → Word × Word} (roomy : Roomy cfg s (.irq irqs flags)) (port : p < cfg.nports)
    (cntr : c < cfg.counters) :
    waitingSum (s.irq cfg irqs flags) p c (n + 1) =
      waitingSum s p c n + if Flagged cfg flags p c then 1 else 0 := by
  obtain ⟨fits, -⟩ := held.free roomy
  -- only the entry at the head is stored
  have others (i : Nat) (other : i ≠ (s.dev.irqsTail + n) % pstatsIrqbufsz) :
      waiting (s.irq cfg irqs flags) p c i = waiting s p c i := by
    rw [← held.head] at other
    simp [waiting, stored, System.irq, pstatsIrqHandler, other]
  have stores : stored (s.irq cfg irqs flags).dev p c s.dev.irqsHead =
      decide (Flagged cfg flags p c) := by
    have masked := roomy.2 p c
    simp only [stored, System.irq, pstatsIrqHandler, if_true, port, and_self, Flagged, cntr,
      true_and] at masked ⊢
    cases flag : bitSet (pstatsIrqCntrs (flags p).1 (flags p).2) c with
    | true => simp [masked flag]
    | false => simp
  have seen : (s.dev.irqsHead != s.dev.irqsTail || s.tlet.ahead p c) = true := by
    by_cases same : s.dev.irqsHead = s.dev.irqsTail
    · -- an empty ring: the tasklet is at no entry
      have outside : s.tlet.inBody = false := by
        by_contra body
        have some := held.inside (by simpa using body)
        have head := held.head
        have tail := held.tail
        rw [pstatsIrqbufsz] at *
        omega
      cases at_pc : s.tlet <;> simp_all [TletPc.inBody, TletPc.ahead]
    · simp [same]
  have last : waiting (s.irq cfg irqs flags) p c ((s.dev.irqsTail + n) % pstatsIrqbufsz) =
      if Flagged cfg flags p c then 1 else 0 := by
    rw [← held.head, waiting, stores]
    change (_ && (s.dev.irqsHead != s.dev.irqsTail || s.tlet.ahead p c)).toNat = _
    rw [seen]
    split
    next flagged => simp [flagged]
    next unflagged => simp [unflagged]
  rw [waitingSum, waitingSum, ← last]
  exact ringSum_push held.tail fits others

/-- An interrupt puts its flags into the ring if there is room. -/
theorem Held.irq {s : System} {n : Nat} (held : Held cfg s n) {irqs : Word}
    {flags : Nat → Word × Word} (roomy : Roomy cfg s (.irq irqs flags)) :
    Held cfg (s.irq cfg irqs flags) (n + 1) := by
  obtain ⟨fits, spare⟩ := held.free roomy
  -- the entry that the tasklet is at is not the one that is stored
  have apart : s.tlet.inBody = true → s.dev.irqsTail ≠ s.dev.irqsHead := by
    intro body same
    have differ : (s.dev.irqsTail + 0) % pstatsIrqbufsz ≠
        (s.dev.irqsTail + n) % pstatsIrqbufsz := slot_ne (held.inside body) fits
    rw [Nat.add_zero, Nat.mod_eq_of_lt held.tail, ← held.head] at differ
    exact differ same
  have kept : s.tlet.inBody = true →
      (s.irq cfg irqs flags).dev.portIrqs s.dev.irqsTail = s.dev.portIrqs s.dev.irqsTail :=
    fun body => if_neg (apart body)
  exact {
    tail := held.tail
    head := by
      change (s.dev.irqsHead + 1) % pstatsIrqbufsz = (s.dev.irqsTail + (n + 1)) % pstatsIrqbufsz
      rw [held.head, Nat.mod_add_mod, Nat.add_assoc]
    room := fits
    outside := spare
    inside := fun _ => Nat.succ_pos n
    port := by
      intro word p at_port
      have body : s.tlet.inBody = true := by
        change s.tlet = _ at at_port
        rw [at_port]
        rfl
      exact (held.port word p at_port).trans (kept body).symm
    cntr := by
      intro word p c at_cntr
      have body : s.tlet.inBody = true := by
        change s.tlet = _ at at_cntr
        rw [at_cntr]
        rfl
      obtain ⟨loaded, others⟩ := held.cntr word p c at_cntr
      exact ⟨loaded.trans (kept body).symm, others⟩
    wake := fun _ asleep => by cases asleep
    quiet := held.quiet
    account := by
      intro p port c cntr
      rw [held.waitingSum_irq roomy port cntr]
      have before := held.account p port c cntr
      change (if Flagged cfg flags p c then s.fetched p c + 1 else s.fetched p c) =
        s.added p c + _
      split <;> omega }

/-! ### The tasklet -/

/-- What holds of the ring, of `n` entries, where the tasklet is at a place. -/
def TletPc.Fits (cfg : Config) (s : System) (n : Nat) (scheduled : Bool) : TletPc → Prop
  | .idle => n < pstatsIrqbufsz ∧ (scheduled = false → n = 0)
  | .full | .while => n < pstatsIrqbufsz
  | .load | .advance => 0 < n
  | .port irqs _ => 0 < n ∧ irqs = s.dev.portIrqs s.dev.irqsTail
  | .cntr irqs p c => 0 < n ∧ irqs = s.dev.portIrqs s.dev.irqsTail ∧ bitSet irqs p = true ∧
      p < cfg.nports ∧ c ≤ cfg.counters

/-- Between two entries the ring has room. -/
theorem TletPc.Fits.outside {s : System} {n : Nat} {scheduled : Bool} {pc : TletPc}
    (fits : pc.Fits cfg s n scheduled) (outside : pc.inBody = false) : n < pstatsIrqbufsz := by
  cases pc with
  | idle => exact fits.1
  | full => exact fits
  | «while» => exact fits
  | load => cases outside
  | advance => cases outside
  | port irqs p => cases outside
  | cntr irqs p c => cases outside

/-- Within an entry the ring is not empty. -/
theorem TletPc.Fits.inside {s : System} {n : Nat} {scheduled : Bool} {pc : TletPc}
    (fits : pc.Fits cfg s n scheduled) (inside : pc.inBody = true) : 0 < n := by
  cases pc with
  | idle => cases inside
  | full => cases inside
  | «while» => cases inside
  | load => exact fits
  | advance => exact fits
  | port irqs p => exact fits.1
  | cntr irqs p c => exact fits.1

/-- A step that only moves the tasklet passes no flag that waits. -/
theorem Held.moveTo {s : System} {n : Nat} (held : Held cfg s n) (pc : TletPc) (scheduled : Bool)
    (fits : pc.Fits cfg s n scheduled)
    (passed : ∀ p < cfg.nports, ∀ c < cfg.counters, stored s.dev p c s.dev.irqsTail = true →
      pc.ahead p c = s.tlet.ahead p c) :
    Held cfg { s with tlet := pc, scheduled := scheduled } n where
  tail := held.tail
  head := held.head
  room := held.room
  outside := fits.outside
  inside := fits.inside
  port := by
    rintro irqs p rfl
    exact fits.2
  cntr := by
    rintro irqs p c rfl
    exact fits.2
  wake := by
    rintro rfl
    exact fits.2
  quiet := held.quiet
  account := by
    intro p portFits c cntrFits
    -- an entry at the tail is still ahead of the tasklet, and the others always are
    have same (i : Nat) : waiting { s with tlet := pc, scheduled := scheduled } p c i =
        waiting s p c i := by
      by_cases first : i = s.dev.irqsTail
      · cases flag : stored s.dev p c i with
        | true => simp [waiting, flag, passed p portFits c cntrFits (first ▸ flag)]
        | false => simp [waiting, flag]
      · have other : (i != s.dev.irqsTail) = true := bne_iff_ne.mpr first
        simp [waiting, other]
    have sums : waitingSum { s with tlet := pc, scheduled := scheduled } p c n =
        waitingSum s p c n := ringSum_congr held.tail fun i _ => same _
    rw [sums]
    exact held.account p portFits c cntrFits

/-- Steps to the end of the tasklet: `counters + 2` for each port of an entry. -/
def TletPc.work (cfg : Config) : TletPc → Nat
  | .idle => cfg.nports * (cfg.counters + 2) + 5
  | .full => cfg.nports * (cfg.counters + 2) + 7
  | .while => cfg.nports * (cfg.counters + 2) + 6
  | .load => cfg.nports * (cfg.counters + 2) + 4
  | .port _ p => (cfg.nports - p) * (cfg.counters + 2) + 3
  | .cntr _ p c => (cfg.nports - p) * (cfg.counters + 2) + 2 - c
  | .advance => 2

def work (cfg : Config) (s : System) (n : Nat) : Nat :=
  (if s.scheduled then 4 else 0) + n * (cfg.nports * (cfg.counters + 2) + 5) + s.tlet.work cfg

private theorem ports_left {p : Nat} (port : p < cfg.nports) :
    (cfg.nports - p) * (cfg.counters + 2) =
      (cfg.nports - (p + 1)) * (cfg.counters + 2) + (cfg.counters + 2) := by
  have left : cfg.nports - p = (cfg.nports - (p + 1)) + 1 := by omega
  rw [left, Nat.add_mul, Nat.one_mul]

/-- The addition of a flag. -/
theorem Held.add {s : System} {n p c : Nat} {irqs : Word} (held : Held cfg s n)
    (at_cntr : s.tlet = .cntr irqs p c) (cntr : c < cfg.counters)
    (flag : bitSet (s.dev.overflows s.dev.irqsTail p) c = true) :
    Held cfg { s with
      dev := addOverflow p c s.dev
      added := bump s.added p c
      tlet := .cntr irqs p (c + 1) } n := by
  have body : s.tlet.inBody = true := by rw [at_cntr]; rfl
  obtain ⟨loaded, bit, port, -⟩ := held.cntr irqs p c at_cntr
  exact {
    tail := held.tail
    head := held.head
    room := held.room
    outside := fun body => by cases body
    inside := fun _ => held.inside body
    port := fun _ _ at_port => by cases at_port
    cntr := by
      rintro _ _ _ ⟨⟩
      exact ⟨loaded, bit, port, cntr⟩
    wake := fun idle => by cases idle
    quiet := held.quiet
    account := by
      intro p' port' c' cntr'
      have before := held.account p' port' c' cntr'
      have others (i : Nat) (other : i ≠ s.dev.irqsTail) :
          waiting { s with tlet := .cntr irqs p (c + 1) } p' c' i = waiting s p' c' i := by
        have behind : (i != s.dev.irqsTail) = true := bne_iff_ne.mpr other
        simp [waiting, behind]
      obtain ⟨m, rfl⟩ : ∃ m, n = m + 1 := ⟨n - 1, by have := held.inside body; omega⟩
      have change := ringSum_first held.tail held.room others
      change s.fetched p' c' = bump s.added p c p' c' +
        ringSum pstatsIrqbufsz (waiting { s with tlet := .cntr irqs p (c + 1) } p' c')
          s.dev.irqsTail (m + 1)
      rw [waitingSum] at before
      -- the flag of this counter leaves the entry, the others stay
      by_cases here : p' = p ∧ c' = c
      · obtain ⟨rfl, rfl⟩ := here
        have present : waiting s p' c' s.dev.irqsTail = 1 := by
          simp [waiting, stored, ← loaded, bit, flag, at_cntr, TletPc.ahead]
        have gone : waiting { s with tlet := .cntr irqs p' (c' + 1) } p' c' s.dev.irqsTail = 0 := by
          simp [waiting, TletPc.ahead]
        have added : bump s.added p' c' p' c' = s.added p' c' + 1 := setAt_self _ _ _ _
        omega
      · have same : waiting { s with tlet := .cntr irqs p (c + 1) } p' c' s.dev.irqsTail =
            waiting s p' c' s.dev.irqsTail := by
          have ahead : (TletPc.cntr irqs p (c + 1)).ahead p' c' = s.tlet.ahead p' c' := by
            simp only [at_cntr, TletPc.ahead, decide_eq_decide]
            omega
          simp [waiting, ahead]
        have added : bump s.added p c p' c' = s.added p' c' := setAt_other _ _ here
        omega }

/-- The entry that the tasklet leaves has no flag that waits. -/
theorem Held.advance {s : System} {n : Nat} (held : Held cfg s (n + 1))
    (at_advance : s.tlet = .advance) :
    Held cfg { s with
      dev := { s.dev with irqsTail := (s.dev.irqsTail + 1) % pstatsIrqbufsz }
      tlet := .while } n where
  tail := Nat.mod_lt _ (by decide)
  head := by
    change s.dev.irqsHead = _
    rw [held.head, Nat.mod_add_mod, Nat.add_assoc, Nat.add_comm 1 n]
  room := Nat.le_of_succ_le held.room
  outside := fun _ => held.room
  inside := fun body => by cases body
  port := fun _ _ at_port => by cases at_port
  cntr := fun _ _ _ at_cntr => by cases at_cntr
  wake := fun idle => by cases idle
  quiet := held.quiet
  account := by
    intro p port c cntr
    have before := held.account p port c cntr
    -- the first entry is used up
    have done : waiting s p c s.dev.irqsTail = 0 := by
      simp [waiting, at_advance, TletPc.ahead]
    have others (i : Nat) (other : i ≠ s.dev.irqsTail) :
        waiting { s with
          dev := { s.dev with irqsTail := (s.dev.irqsTail + 1) % pstatsIrqbufsz }
          tlet := .while } p c i = waiting s p c i := by
      have behind : (i != s.dev.irqsTail) = true := bne_iff_ne.mpr other
      simp [waiting, stored, behind, TletPc.ahead]
    rw [waitingSum, ringSum_pop held.tail held.room others, done, Nat.zero_add] at before
    exact before

/-- The ring-full check never finds more than a ring of entries. -/
theorem Held.not_full {s : System} {n : Nat} (held : Held cfg s n) :
    ¬((s.dev.irqsHead : Int) - s.dev.irqsTail > pstatsIrqbufsz) := by
  have head : s.dev.irqsHead < pstatsIrqbufsz := held.head ▸ Nat.mod_lt _ (by decide)
  omega

private theorem Held.empty_iff {s : System} {n : Nat} (held : Held cfg s n)
    (fits : n < pstatsIrqbufsz) :
    s.dev.irqsTail = s.dev.irqsHead ↔ n = 0 := by
  have tail := held.tail
  rw [held.head]
  rw [pstatsIrqbufsz] at *
  omega

/-- A step of the tasklet keeps the account, and is one towards its end unless it rests. -/
def Advances (cfg : Config) (s : System) (n : Nat) : Prop :=
  ∃ m, Held cfg (s.tletStep cfg) m ∧ (¬AtRest s → work cfg (s.tletStep cfg) m < work cfg s n)

private theorem Held.step_idle {s : System} {n : Nat} (held : Held cfg s n)
    (at_pc : s.tlet = .idle) : Advances cfg s n := by
  have fits := held.outside (by rw [at_pc]; rfl)
  cases called : s.scheduled with
  | true =>
    have moved : s.tletStep cfg = { s with tlet := .full, scheduled := false } := by
      simp [System.tletStep, at_pc, called]
    rw [Advances, moved]
    refine ⟨n, held.moveTo .full false fits ?_, fun _ => ?_⟩
    · simp [at_pc, TletPc.ahead]
    · simp [work, at_pc, called, TletPc.work]
      omega
  | false =>
    have stays : s.tletStep cfg = s := by simp [System.tletStep, at_pc, called]
    exact ⟨n, by rwa [stays], fun busy => absurd ⟨at_pc, called⟩ busy⟩

private theorem Held.step_full {s : System} {n : Nat} (held : Held cfg s n)
    (at_pc : s.tlet = .full) : Advances cfg s n := by
  have fits := held.outside (by rw [at_pc]; rfl)
  have moved : s.tletStep cfg = { s with tlet := .while } := by
    simp only [System.tletStep, at_pc, if_neg held.not_full]
  rw [Advances, moved]
  refine ⟨n, held.moveTo .while s.scheduled fits ?_, fun _ => ?_⟩
  · simp [at_pc, TletPc.ahead]
  · simp [work, at_pc, TletPc.work]

private theorem Held.step_while {s : System} {n : Nat} (held : Held cfg s n)
    (at_pc : s.tlet = .while) : Advances cfg s n := by
  have fits := held.outside (by rw [at_pc]; rfl)
  by_cases empty : s.dev.irqsTail = s.dev.irqsHead
  · have none := (held.empty_iff fits).mp empty
    have moved : s.tletStep cfg = { s with tlet := .idle } := by
      simp [System.tletStep, at_pc, empty]
    rw [Advances, moved]
    refine ⟨n, held.moveTo .idle s.scheduled ⟨fits, fun _ => none⟩ ?_, fun _ => ?_⟩
    · simp [at_pc, TletPc.ahead]
    · simp [work, at_pc, TletPc.work]
  · have some : 0 < n := Nat.pos_of_ne_zero fun none => empty ((held.empty_iff fits).mpr none)
    have moved : s.tletStep cfg = { s with tlet := .load } := by
      simp [System.tletStep, at_pc, empty]
    rw [Advances, moved]
    refine ⟨n, held.moveTo .load s.scheduled some ?_, fun _ => ?_⟩
    · simp [at_pc, TletPc.ahead]
    · simp [work, at_pc, TletPc.work]

private theorem Held.step_load {s : System} {n : Nat} (held : Held cfg s n)
    (at_pc : s.tlet = .load) : Advances cfg s n := by
  have some := held.inside (by rw [at_pc]; rfl)
  have moved : s.tletStep cfg = { s with tlet := .port (s.dev.portIrqs s.dev.irqsTail) 0 } := by
    simp only [System.tletStep, at_pc]
  rw [Advances, moved]
  refine ⟨n, held.moveTo _ s.scheduled ⟨some, rfl⟩ ?_, fun _ => ?_⟩
  · simp [at_pc, TletPc.ahead]
  · simp [work, at_pc, TletPc.work]

private theorem Held.step_port {s : System} {n : Nat} {irqs : Word} {p : Nat} (held : Held cfg s n)
    (at_pc : s.tlet = .port irqs p) : Advances cfg s n := by
  have some := held.inside (by rw [at_pc]; rfl)
  have loaded := held.port irqs p at_pc
  by_cases port : p < cfg.nports
  · have left := ports_left port
    cases bit : bitSet irqs p with
    | true =>
      have moved : s.tletStep cfg = { s with tlet := .cntr irqs p 0 } := by
        simp [System.tletStep, at_pc, port, bit]
      rw [Advances, moved]
      refine ⟨n, held.moveTo _ s.scheduled ⟨some, loaded, bit, port, Nat.zero_le _⟩ ?_,
        fun _ => ?_⟩
      · intro p' _ c' _ _
        simp only [at_pc, TletPc.ahead, decide_eq_decide]
        omega
      · simp [work, at_pc, TletPc.work]
    | false =>
      have moved : s.tletStep cfg = { s with tlet := .port irqs (p + 1) } := by
        simp [System.tletStep, at_pc, port, bit]
      rw [Advances, moved]
      refine ⟨n, held.moveTo _ s.scheduled ⟨some, loaded⟩ ?_, fun _ => ?_⟩
      · intro p' _ c' _ flag
        -- the port that is skipped has no bit
        have other : p' ≠ p := by
          rintro rfl
          simp [stored, ← loaded, bit] at flag
        simp only [at_pc, TletPc.ahead, decide_eq_decide]
        omega
      · simp only [work, at_pc, TletPc.work]
        omega
  · have moved : s.tletStep cfg = { s with tlet := .advance } := by
      simp [System.tletStep, at_pc, port]
    rw [Advances, moved]
    refine ⟨n, held.moveTo .advance s.scheduled some ?_, fun _ => ?_⟩
    · intro p' port' c' _ _
      have past : ¬p ≤ p' := by omega
      simp [at_pc, TletPc.ahead, past]
    · simp only [work, at_pc, TletPc.work]
      omega

private theorem Held.step_cntr {s : System} {n : Nat} {irqs : Word} {p c : Nat}
    (held : Held cfg s n) (at_pc : s.tlet = .cntr irqs p c) : Advances cfg s n := by
  have some := held.inside (by rw [at_pc]; rfl)
  obtain ⟨loaded, bit, port, bound⟩ := held.cntr irqs p c at_pc
  have left := ports_left port
  -- the tasklet passes one counter, with its flag or without
  by_cases cntr : c < cfg.counters
  · cases flag : bitSet (s.dev.overflows s.dev.irqsTail p) c with
    | true =>
      have moved : s.tletStep cfg = { s with
          dev := addOverflow p c s.dev
          added := bump s.added p c
          tlet := .cntr irqs p (c + 1) } := by
        simp [System.tletStep, at_pc, cntr, flag]
      rw [Advances, moved]
      refine ⟨n, held.add at_pc cntr flag, fun _ => ?_⟩
      simp only [work, at_pc, TletPc.work]
      omega
    | false =>
      have moved : s.tletStep cfg = { s with tlet := .cntr irqs p (c + 1) } := by
        simp [System.tletStep, at_pc, cntr, flag]
      rw [Advances, moved]
      refine ⟨n, held.moveTo _ s.scheduled ⟨some, loaded, bit, port, cntr⟩ ?_, fun _ => ?_⟩
      · intro p' _ c' _ present
        have other : ¬(p' = p ∧ c' = c) := by
          rintro ⟨rfl, rfl⟩
          simp [stored, flag] at present
        simp only [at_pc, TletPc.ahead, decide_eq_decide]
        omega
      · simp only [work, at_pc, TletPc.work]
        omega
  · have moved : s.tletStep cfg = { s with tlet := .port irqs (p + 1) } := by
      simp [System.tletStep, at_pc, cntr]
    rw [Advances, moved]
    refine ⟨n, held.moveTo _ s.scheduled ⟨some, loaded⟩ ?_, fun _ => ?_⟩
    · intro p' _ c' cntr' _
      simp only [at_pc, TletPc.ahead, decide_eq_decide]
      omega
    · simp only [work, at_pc, TletPc.work]
      omega

private theorem Held.step_advance {s : System} {n : Nat} (held : Held cfg s n)
    (at_pc : s.tlet = .advance) : Advances cfg s n := by
  obtain ⟨m, rfl⟩ : ∃ m, n = m + 1 :=
    ⟨n - 1, by have := held.inside (by rw [at_pc]; rfl); omega⟩
  have moved : s.tletStep cfg = { s with
      dev := { s.dev with irqsTail := (s.dev.irqsTail + 1) % pstatsIrqbufsz }
      tlet := .while } := by
    simp only [System.tletStep, at_pc]
  rw [Advances, moved]
  refine ⟨m, held.advance at_pc, fun _ => ?_⟩
  simp only [work, at_pc, TletPc.work, Nat.add_mul, Nat.one_mul]
  omega

/-- A step of the tasklet leads to the next one. -/
theorem Held.tletStep {s : System} {n : Nat} (held : Held cfg s n) : Advances cfg s n := by
  cases at_pc : s.tlet with
  | idle => exact held.step_idle at_pc
  | full => exact held.step_full at_pc
  | «while» => exact held.step_while at_pc
  | load => exact held.step_load at_pc
  | port irqs p => exact held.step_port at_pc
  | cntr irqs p c => exact held.step_cntr at_pc
  | advance => exact held.step_advance at_pc

/-! ### Runs -/

/-- Every step keeps the flags that are held. -/
theorem Held.step {s : System} {n : Nat} {e : Event cfg} (held : Held cfg s n)
    (roomy : Roomy cfg s e) : ∃ m, Held cfg (s.step cfg e) m := by
  cases e with
  | count p c => exact ⟨n, held.congr ⟨rfl, rfl⟩ ⟨rfl, rfl⟩ ⟨rfl, rfl, rfl⟩ ⟨rfl, rfl⟩⟩
  | irq irqs flags => exact ⟨n + 1, held.irq roomy⟩
  | tlet =>
    obtain ⟨m, kept, -⟩ := held.tletStep
    exact ⟨m, kept⟩
  | read p =>
    refine ⟨n, held.congr ?_ ?_ ⟨rfl, rfl, rfl⟩ ⟨rfl, rfl⟩⟩ <;>
      simp [System.step, System.read, pstatsRdCntrs_eq]
  | zero p =>
    refine ⟨n, held.congr ?_ ?_ ⟨rfl, rfl, rfl⟩ ⟨rfl, rfl⟩⟩ <;>
      simp [System.step, System.zero, pstatsZero_eq, pstatsRdCntrs_eq]

/-- What is held is delivered or will be. -/
theorem Held.delivered {es : List (Event cfg)} {n : Nat}
    (held : Held cfg (run (System.step cfg) .init es) n) : Delivered cfg es := by
  have account (p : Nat) (port : p < cfg.nports) (c : Nat) (cntr : c < cfg.counters) :
      readings cfg p c es = additions cfg p c .init es +
        waitingSum (run (System.step cfg) .init es) p c n := by
    have flags := held.account p port c cntr
    rw [run_fetched, run_added] at flags
    simpa [System.init] using flags
  refine .inl ⟨Along.of_all addsOnly _ _, fun p port c cntr => ?_,
    fun rest p port c cntr => ?_⟩
  · exact Nat.le.intro (account p port c cntr).symm
  · have read := account p port c cntr
    rw [held.wake rest.1 rest.2] at read
    exact read.symm

/-- Left alone, the tasklet comes to rest. -/
theorem Held.rests {s : System} {n : Nat} (held : Held cfg s n) :
    ∃ k, AtRest (run (System.step cfg) s (List.replicate k .tlet)) := by
  induction bound : work cfg s n using Nat.strong_induction_on generalizing s n with
  | _ w ih =>
    by_cases rest : AtRest s
    · exact ⟨0, rest⟩
    · obtain ⟨m, kept, less⟩ := held.tletStep
      obtain ⟨k, later⟩ := ih _ (bound ▸ less rest) kept rfl
      exact ⟨k + 1, later⟩

/-- In a run in which the handler always finds room, every flag that was read is added to its
counter once: none is ahead of its reading, and none is left when the tasklet comes to rest. -/
theorem flags_delivered (es : List (Event cfg))
    (roomy : Along (Roomy cfg) (System.step cfg) .init es) :
    Delivered cfg es ∧ ∃ k, AtRest (run (System.step cfg) .init (es ++ List.replicate k .tlet)) := by
  obtain ⟨n, held⟩ := run_invariant (fun s => ∃ n, Held cfg s n) (Roomy cfg) (System.step cfg)
    (fun s e ⟨n, held⟩ admitted => held.step admitted) .init es ⟨0, held_init cfg⟩ roomy
  refine ⟨held.delivered, ?_⟩
  obtain ⟨k, rests⟩ := held.rests
  exact ⟨k, by rwa [run_append]⟩

instance (s : System) : ∀ e, Decidable (Roomy .single s e)
  | .irq irqs flags =>
    haveI : Decidable (∀ p c, Flagged .single flags p c → bitSet irqs p = true) :=
      decidable_of_iff (∀ p < 1, ∀ c < 1, Flagged .single flags p c → bitSet irqs p = true)
        ⟨fun bounded p c flagged => bounded p flagged.1 c flagged.2.1 flagged,
          fun all p _ c _ => all p c⟩
    inferInstanceAs (Decidable (_ ∧ _))
  | .count _ _ | .tlet | .read _ | .zero _ => isTrue trivial

/-- Fifteen calls of the handler before the tasklet runs. -/
theorem flags_delivered_fifteen :
    Delivered .single (List.replicate 15 (.irq 1 fun _ => (1, 0))) ∧
      ∃ k, AtRest (run (System.step .single) .init
        (List.replicate 15 (.irq 1 fun _ => (1, 0)) ++ List.replicate k .tlet)) :=
  flags_delivered _ (by decide)

/-- Sixteen calls fill the ring: the tasklet finds it empty and prints no warning. -/
theorem flags_lost :
    ¬Delivered .single
      (List.replicate 16 (.irq 1 fun _ => (1, 0)) ++ List.replicate 4 .tlet) := by
  rintro (⟨-, -, rest⟩ | warned)
  · have none := rest ⟨by decide, by decide⟩ 0 (by decide) 0 (by decide)
    revert none
    decide
  · revert warned
    decide

end WrSwitch.Pstats
