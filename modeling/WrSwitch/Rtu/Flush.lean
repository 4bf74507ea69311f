import WrSwitch.Rtu.Table

/-!
# Flushing the MFIFO

The accesses of the daemon interleaved with an RTU that stays busy for some steps after
each trigger. The loop that should wait for it negates the whole register before it masks
the bit, so it never waits: what keeps the bursts apart is only that flushes are short.
-/
namespace WrSwitch.Rtu

open Machine

/-! ### The program of a sequence of calls -/

/-- The calls that write the hash table. -/
inductive FdCall
  | cleanFd
  | op (o : FdOp)

def fdCall (s : RtuState) : FdCall → RtuState
  | .cleanFd => cleanFd s
  | .op o => fdStep s o

/-- One instruction of the daemon: an access, or the return from a call. -/
inductive Instr
  | access (e : Event)
  | ret
deriving DecidableEq

/-- The accesses a call adds to the record. -/
def callEvents (s : RtuState) (call : FdCall) : List Event :=
  (fdCall s call).trace.drop s.trace.length

/-- All accesses of a sequence of calls in order, with a return after each call. -/
def program : RtuState → List FdCall → List Instr
  | _, [] => []
  | s, call :: calls =>
    (callEvents s call).map .access ++ .ret :: program (fdCall s call) calls

/-! ### Daemon and RTU -/

/-- The daemon at an instruction, and the RTU with the steps its flush still takes. -/
structure FlushState where
  rest : List Instr
  /-- the local variable of `flush_mfifo` -/
  gcrRead : Word
  gcr : Word
  busy : Nat

/-- A read of `GCR`: the trigger bit reads 1 while the MFIFO is busy and 0 when it is idle. -/
def FlushState.readGcr (s : FlushState) : Word :=
  (s.gcr &&& ~~~rtuGcrMfifotrig) ||| if 0 < s.busy then rtuGcrMfifotrig else 0

/-- The loop condition of `flush_mfifo`, `!rtu_rd(GCR) & RTU_GCR_MFIFOTRIG`. -/
def pollAgain (gcr : Word) : Bool :=
  decide ((if gcr = 0 then (1 : Word) else 0) &&& rtuGcrMfifotrig ≠ 0)

/-- A turn of the daemon, with the length of the flush it may start, or of the RTU. -/
inductive Turn
  | cpu (duration : Nat)
  | hw
deriving DecidableEq

def flushStep (s : FlushState) : Turn → FlushState
  | .hw => { s with busy := s.busy - 1 }
  | .cpu duration =>
    match s.rest with
    | [] => s
    | .access .rdGcr :: rest => { s with rest := rest, gcrRead := s.readGcr }
    | .access .trigGcr :: rest =>
      { s with rest := rest, gcr := s.gcrRead ||| rtuGcrMfifotrig, busy := duration }
    | .access .pollGcr :: rest => if pollAgain s.readGcr then s else { s with rest := rest }
    | .access _ :: rest => { s with rest := rest }
    | .ret :: rest => { s with rest := rest }

/-- The instructions that must not meet a busy RTU. -/
def Instr.Exclusive : Instr → Prop
  | .access (.wr .mfifoR0 _) | .access (.wr .mfifoR1 _) | .access .trigGcr | .ret => True
  | .access _ => False

instance : ∀ i : Instr, Decidable i.Exclusive
  | .access (.wr .mfifoR0 _) | .access (.wr .mfifoR1 _) | .access .trigGcr | .ret =>
    isTrue trivial
  | .access (.wr .gcr _) | .access (.wr .psr _) | .access (.wr .pcr _) | .access (.wr .vtr1 _)
  | .access (.wr .vtr2 _) | .access (.wr .rxCtr _) | .access (.wr .rxMpR0 _)
  | .access (.wr .rxMpR1 _) | .access (.wr (.aram _) _) | .access (.epWr _ _ _)
  | .access .rdGcr | .access .pollGcr | .access (.index _ _) | .access (.shift _) => isFalse id

/-- No turn writes the FIFO, triggers a flush or returns while a flush is under way. -/
def NoRace (s : FlushState) : Turn → Prop
  | .hw => True
  | .cpu _ => ∀ i ∈ s.rest.head?, i.Exclusive → s.busy = 0

/-- When the loop reads `GCR`, the flush is already over. -/
def FlushOver (s : FlushState) : Turn → Prop
  | .hw => True
  | .cpu _ => s.rest.head? = some (.access .pollGcr) → s.busy = 0

instance (s : FlushState) : ∀ t, Decidable (NoRace s t)
  | .hw => isTrue trivial
  | .cpu _ => inferInstanceAs (Decidable (∀ i ∈ s.rest.head?, i.Exclusive → s.busy = 0))

instance (s : FlushState) : ∀ t, Decidable (FlushOver s t)
  | .hw => isTrue trivial
  | .cpu _ => inferInstanceAs (Decidable (_ = _ → _ = _))

/-- The loop is left after one read, whatever the register holds. -/
theorem pollAgain_eq_false (gcr : Word) : pollAgain gcr = false := by
  unfold pollAgain
  split <;> decide

/-! ### Triggers are polled at once -/

/-- Every trigger is followed by the poll that should wait for it. -/
inductive Polled : List Instr → Prop
  | nil : Polled []
  | cons {i : Instr} {is : List Instr}
    (next : i = .access .trigGcr → is.head? = some (.access .pollGcr)) (rest : Polled is) :
    Polled (i :: is)

/-- Two programs that poll, one after the other. -/
theorem Polled.append {is js : List Instr} (left : Polled is) (right : Polled js) :
    Polled (is ++ js) := by
  induction left with
  | nil => exact right
  | @cons i is next _ ih =>
    refine .cons ?_ ih
    intro trigger
    have polled := next trigger
    cases is with
    | nil => cases polled
    | cons j is => exact polled

/-- The accesses of a piece of code, none of which ends in an unpolled trigger. -/
def PolledEvents (es : List Event) : Prop := Polled (es.map .access)

/-- Two logs that poll, one after the other. -/
theorem PolledEvents.append {es fs : List Event} (left : PolledEvents es)
    (right : PolledEvents fs) : PolledEvents (es ++ fs) := by
  simpa only [PolledEvents, List.map_append] using Polled.append left right

theorem PolledEvents.flatMap {α : Type} {xs : List α} {events : α → List Event}
    (polled : ∀ x ∈ xs, PolledEvents (events x)) : PolledEvents (xs.flatMap events) := by
  induction xs with
  | nil => exact .nil
  | cons x xs ih =>
    rw [List.flatMap_cons]
    exact (polled x List.mem_cons_self).append
      (ih fun y mem => polled y (List.mem_cons_of_mem _ mem))

/-- Accesses other than triggers need no poll. -/
theorem polledEvents_of_no_trigger {es : List Event} (none : .trigGcr ∉ es) : PolledEvents es := by
  induction es with
  | nil => exact .nil
  | cons e es ih =>
    rw [List.mem_cons, not_or] at none
    refine .cons ?_ (ih none.2)
    intro trigger
    exact absurd (Instr.access.inj trigger).symm none.1

private theorem polledEvents_burst (zbtAddr : Nat) (words : List Word) (flush : Bool) :
    PolledEvents (burstEvents zbtAddr words flush) := by
  unfold burstEvents
  refine (PolledEvents.append ?_ ?_).append ?_
  · exact polledEvents_of_no_trigger (by simp [writeMfifoEvents])
  · exact polledEvents_of_no_trigger (by simp [writeMfifoEvents])
  · cases flush with
    | false => exact .nil
    | true => exact .cons (by simp) (.cons (fun _ => rfl) (.cons (by simp) .nil))

private theorem polledEvents_commit (t : Htab) (reqs : List HwReq) :
    PolledEvents (commitEvents t reqs) := by
  induction reqs generalizing t with
  | nil => exact .nil
  | cons req reqs ih =>
    refine PolledEvents.append ?_ (ih _)
    unfold commitReqEvents rowEvents
    cases req.type with
    | write => exact polledEvents_burst ..
    | remove => exact .flatMap fun _ _ => polledEvents_burst ..

private theorem polledEvents_sweep (t : Htab) {logged : RtuFilteringEntry → List Event}
    (doomed : RtuFilteringEntry → Bool) (none : ∀ ent, .trigGcr ∉ logged ent) :
    PolledEvents (sweepEvents t logged doomed) := by
  unfold sweepEvents scanEvents
  refine PolledEvents.append (PolledEvents.flatMap ?_) (polledEvents_commit _ _)
  intro ij _
  exact polledEvents_of_no_trigger (none _)

private theorem polledEvents_index (table : Table) (i : Int) {es : List Event}
    (polled : PolledEvents es) :
    PolledEvents (.index table i :: es) :=
  PolledEvents.append (polledEvents_of_no_trigger (by simp : Event.trigGcr ∉ [.index table i]))
    polled

private theorem polledEvents_op (m : SwState) (op : FdOp) : PolledEvents (fdEvents m op) := by
  unfold fdEvents
  cases op with
  | create mac vid portMask dynamic atExistingEntry now =>
    dsimp only [createEvents]
    refine polledEvents_index _ _ ?_
    cases createPlan m mac vid portMask dynamic atExistingEntry with
    | keep | full => exact .nil
    | update i j => exact polledEvents_burst ..
    | insert eaddr => exact polledEvents_burst ..
  | remove mac portMask type =>
    dsimp only
    exact polledEvents_sweep _ _ (by simp)
  | clear destPort type =>
    dsimp only
    refine polledEvents_sweep _ _ fun ent => ?_
    split <;> simp
  | flush bitmap t₁ t₂ =>
    dsimp only
    -- reading the aging bitmap writes no MFIFO; the sweep behind it is polled
    refine PolledEvents.append ?_ (polledEvents_sweep _ _ (by simp))
    exact polledEvents_of_no_trigger (by simp)

private theorem fdCall_idle (s : RtuState) (call : FdCall) (idle : s.hwReqList = []) :
    (fdCall s call).hwReqList = [] := by
  unfold fdCall
  cases call with
  | cleanFd =>
    dsimp only
    exact cleanFd_idle s idle
  | op o => exact run_idle s [o] idle

private theorem polledEvents_call (s : RtuState) (call : FdCall) (idle : s.hwReqList = []) :
    PolledEvents (callEvents s call) := by
  unfold callEvents fdCall
  cases call with
  | cleanFd =>
    unfold cleanFd
    simp only [rtuCleanHtab_eq, emitAll_trace, List.drop_left]
    exact .flatMap fun _ _ => polledEvents_burst ..
  | op o =>
    simp only [fdStep_eq s o idle, emitAll_trace, List.drop_left]
    exact polledEvents_op s.toSwState o

/-- In the program of any sequence of calls every trigger is polled at once. -/
theorem program_polled (s : RtuState) (calls : List FdCall) (idle : s.hwReqList = []) :
    Polled (program s calls) := by
  induction calls generalizing s with
  | nil => exact .nil
  | cons call calls ih =>
    unfold program
    refine Polled.append (polledEvents_call s call idle) (.cons (fun trigger => by cases trigger) ?_)
    exact ih (fdCall s call) (fdCall_idle s call idle)

/-! ### Runs -/

/-- While the RTU is busy, the daemon stands before the poll of the flush it triggered. -/
structure AtPoll (s : FlushState) : Prop where
  polled : Polled s.rest
  waiting : s.busy ≠ 0 → s.rest.head? = some (.access .pollGcr)

private theorem atPoll_step (s : FlushState) (t : Turn) (inv : AtPoll s) (ended : FlushOver s t) :
    AtPoll (flushStep s t) := by
  obtain ⟨rest, gcrRead, gcr, busy⟩ := s
  obtain ⟨polled, waiting⟩ := inv
  cases t with
  | hw =>
    refine ⟨polled, ?_⟩
    intro remaining
    have running : busy ≠ 0 := fun ended => remaining (by simp [flushStep, ended])
    exact waiting running
  | cpu duration =>
    cases polled with
    | nil => exact ⟨.nil, waiting⟩
    | @cons i is next polled =>
      -- an instruction other than the poll finds the RTU idle and leaves it idle
      have quiet (other : i ≠ .access .pollGcr) : busy = 0 := by
        by_contra running
        exact other (Option.some.inj (waiting running))
      cases i with
      | ret => exact ⟨polled, fun running => absurd (quiet (by simp)) running⟩
      | access e =>
        cases e with
        | trigGcr => exact ⟨polled, fun _ => next rfl⟩
        | pollGcr =>
          have idle : busy = 0 := ended rfl
          simp only [flushStep, pollAgain_eq_false, Bool.false_eq_true, if_false]
          exact ⟨polled, fun running => absurd idle running⟩
        | wr | epWr | rdGcr | index | shift =>
          exact ⟨polled, fun running => absurd (quiet (by simp)) running⟩

/-- At the poll nothing else is under way, and elsewhere the RTU is idle. -/
theorem noRace_of_atPoll (s : FlushState) (t : Turn) (inv : AtPoll s) : NoRace s t := by
  cases t with
  | hw => trivial
  | cpu duration =>
    intro i first exclusive
    by_contra running
    have poll := inv.waiting running
    rw [Option.mem_def.mp first] at poll
    rw [Option.some.inj poll] at exclusive
    exact exclusive

/-- In every interleaving in which each flush is over when the poll reads `GCR`, no write
and no trigger meets a busy RTU, and no call returns before its flush has ended. -/
theorem flush_no_race (s₀ : RtuState) (calls : List FdCall) (gcrRead gcr : Word)
    (turns : List Turn) (idle : s₀.hwReqList = [])
    (along : Along FlushOver flushStep ⟨program s₀ calls, gcrRead, gcr, 0⟩ turns) :
    Along NoRace flushStep ⟨program s₀ calls, gcrRead, gcr, 0⟩ turns :=
  Along.strengthen AtPoll atPoll_step (fun s t inv _ => noRace_of_atPoll s t inv)
    ⟨program_polled s₀ calls idle, fun running => absurd rfl running⟩ along

/-- One creation; its program is an index, an address word, five data words, the three
accesses of the flush, and the return. -/
def createOnce : List FdCall :=
  [.op (.create ⟨0x02, 0, 0, 0, 0, 1⟩ 0 1 rtuEntryTypeDynamic overrideExisting 0)]

/-- The flush takes one step, which the RTU makes before the poll. -/
theorem flush_no_race_short :
    Along NoRace flushStep ⟨program firstStartState createOnce, 0, 0, 0⟩
      (List.replicate 15 (.cpu 1) ++ [.hw, .cpu 1, .cpu 1]) :=
  flush_no_race firstStartState createOnce 0 0 _ rfl (by decide +kernel)

/-- The flush takes one step, which the RTU does not make before the call returns. -/
theorem flush_race :
    ¬Along NoRace flushStep ⟨program firstStartState createOnce, 0, 0, 0⟩
      (List.replicate 17 (.cpu 1)) := by
  decide +kernel

end WrSwitch.Rtu
