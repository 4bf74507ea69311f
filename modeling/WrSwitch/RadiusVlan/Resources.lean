import WrSwitch.Machine.Handles
import WrSwitch.RadiusVlan.Fsm
import Mathlib.Tactic.SplitIfs

/-!
# Children and descriptors

A port's `poll_fd` and `pid` account for its descriptor and its child as long as no descriptor
is held when the sniffing socket is opened, no child when the next one is forked, and the
calls that start a client fail only in harmless ways.
-/
namespace WrSwitch.RadiusVlan

open Machine

variable {n : Nat}

/-! ### What is asked of the ports -/

/-- Each port has the descriptor in its `poll_fd`, if it is not negative, and the unreaped child
in its `pid`, if that is not 0; and there are no others. -/
structure Held (w : World n) (pollFds : Fin n → Int) (pids : Fin n → Nat) : Prop where
  fds : Settled (0 ≤ ·) w.fds pollFds
  children : Settled (· ≠ 0) w.children pids

def Accounted (s : System n) : Prop :=
  Held s.world (fun i => (s.devs i).pollFd) fun i => (s.devs i).pid

/-- The port and the descriptors with which RVLAN_RADCLIENT starts a client. -/
def clientStart (cfg : Config) (env : FsmEnv) (d : RvlanDev) (w : World n) :
    Option (RvlanDev × World n) :=
  match d.fsmState with
  | .sniff => sniff cfg env d w
  | .radclient => some (d, w)
  | _ => none

/-- The kernel gives out numbers that are not in use. -/
def FreshFds (w : World n) (fds : List Int) : Prop :=
  fds.Nodup ∧ ∀ fd ∈ fds, 0 ≤ fd ∧ w.fds fd = none

instance (w : World n) (fds : List Int) : Decidable (FreshFds w fds) :=
  inferInstanceAs (Decidable (_ ∧ _))

def LegalFork (w : World n) : ForkResult → Prop
  | .pipe0Failed _ _ | .pipe1Failed => True
  | .forkFailed out0 in0 out1 in1 => FreshFds w [out0, in0, out1, in1]
  | .forked out0 in0 out1 in1 pid =>
    FreshFds w [out0, in0, out1, in1] ∧ pid ≠ 0 ∧ w.children pid = none

instance (w : World n) : (fork : ForkResult) → Decidable (LegalFork w fork)
  | .pipe0Failed _ _ | .pipe1Failed => isTrue trivial
  | .forkFailed _ _ _ _ => inferInstanceAs (Decidable (FreshFds _ _))
  | .forked _ _ _ _ _ => inferInstanceAs (Decidable (_ ∧ _))

/-- What the kernel answers. -/
def Legal (cfg : Config) (s : System n) : Event n → Prop
  | .fsm i env =>
    let d := upDown (s.devs i)
    (d.fsmState = .justup → ∀ sock ∈ env.sock, FreshFds s.world [sock]) ∧
      ∀ start ∈ clientStart cfg env d s.world, LegalFork start.2 env.fork
  | .netlink _ | .reauth | .exit _ => True

instance (cfg : Config) (s : System n) : (e : Event n) → Decidable (Legal cfg s e)
  | .fsm _ _ => inferInstanceAs (Decidable (_ ∧ _))
  | .netlink _ | .reauth | .exit _ => isTrue trivial

/-- Nothing of any port is lost where a client is started. -/
def CleanFork (d : RvlanDev) (w : World n) : ForkResult → Prop
  | .pipe0Failed junk0 junk1 => w.fds junk0 = none ∧ w.fds junk1 = none
  | .pipe1Failed => True
  | .forkFailed _ _ _ _ => False
  | .forked _ _ _ _ _ => d.pid = 0

instance (d : RvlanDev) (w : World n) : (fork : ForkResult) → Decidable (CleanFork d w fork)
  | .pipe0Failed _ _ => inferInstanceAs (Decidable (_ ∧ _))
  | .pipe1Failed => isTrue trivial
  | .forkFailed _ _ _ _ => isFalse id
  | .forked _ _ _ _ _ => inferInstanceAs (Decidable (_ = _))

/-- The port has no descriptor where the sniffing socket is opened and no child where a client
is forked, and the starting of a client has no harmful failure. -/
def Clean (cfg : Config) (s : System n) : Event n → Prop
  | .fsm i env =>
    let d := upDown (s.devs i)
    (d.fsmState = .justup → env.sock ≠ none → d.pollFd < 0) ∧
      ∀ start ∈ clientStart cfg env d s.world, CleanFork start.1 start.2 env.fork
  | .netlink _ | .reauth | .exit _ => True

instance (cfg : Config) (s : System n) : (e : Event n) → Decidable (Clean cfg s e)
  | .fsm _ _ => inferInstanceAs (Decidable (_ ∧ _))
  | .netlink _ | .reauth | .exit _ => isTrue trivial

/-! ### Calls -/

variable {i : Fin n} {w : World n} {pollFds : Fin n → Int} {pids : Fin n → Nat}

/-- A descriptor that is closed is held no more. -/
theorem Held.close (held : Held w pollFds pids) (i : Fin n) :
    Held (w.close (pollFds i)) (Function.update pollFds i (-1)) pids :=
  ⟨held.fds.release (by decide) i, held.children⟩

/-- A child that is reaped is held no more. -/
theorem Held.reap (held : Held w pollFds pids) (i : Fin n) :
    Held (w.reap (pids i)) pollFds (Function.update pids i 0) :=
  ⟨held.fds, held.children.release (by decide) i⟩

private theorem Held.opened_iff (held : Held w pollFds pids) {fd : Int} (nonneg : 0 ≤ fd)
    (free : w.fds fd = none) (i : Fin n) :
    Held (w.opened i fd) (Function.update pollFds i fd) pids ↔ pollFds i < 0 := by
  rw [← not_le, ← held.fds.acquire_iff nonneg free i]
  exact ⟨Held.fds, fun fds => ⟨fds, held.children⟩⟩

private theorem Held.forked_iff (held : Held w pollFds pids) {pid : Nat} (nonzero : pid ≠ 0)
    (free : w.children pid = none) (i : Fin n) :
    Held (w.forked i pid) pollFds (Function.update pids i pid) ↔ pids i = 0 := by
  rw [← not_ne_iff, ← held.children.acquire_iff nonzero free i]
  exact ⟨Held.children, fun children => ⟨held.fds, children⟩⟩

private theorem World.close_free {fd : Int} (free : w.fds fd = none) : w.close fd = w := by
  rw [World.close, ← free, Function.update_eq_self]

/-- Descriptors that no port holds may be closed, and no others. -/
theorem Held.close_two_iff (held : Held w pollFds pids) (fd fd' : Int) :
    Held ((w.close fd).close fd') pollFds pids ↔ w.fds fd = none ∧ w.fds fd' = none := by
  constructor
  · intro after
    have same : Function.update (Function.update w.fds fd none) fd' none = w.fds :=
      after.fds.unique held.fds
    constructor
    · rw [← same]
      by_cases other : fd = fd'
      · rw [other, Function.update_self]
      · rw [Function.update_of_ne other, Function.update_self]
    · rw [← same, Function.update_self]
  · rintro ⟨free, free'⟩
    rwa [World.close_free free, World.close_free free']

/-- Of the two pipes the end that is read stays. -/
theorem World.pipes_eq {out0 in0 out1 in1 : Int} (fresh : FreshFds w [out0, in0, out1, in1])
    (i : Fin n) (pid : Nat) :
    ((((((((w.opened i out0).opened i in0).opened i out1).opened i in1).forked i pid).close
      out0).close in1).close in0) = (w.opened i out1).forked i pid := by
  obtain ⟨distinct, free⟩ := fresh
  simp only [List.nodup_cons, List.mem_cons, not_or, List.not_mem_nil, not_false_eq_true] at distinct
  simp only [List.forall_mem_cons] at free
  simp only [World.opened, World.forked, World.close]
  congr 1
  funext fd
  simp only [Function.update_apply]
  split_ifs <;> simp_all

/-! ### States of the machine -/

variable {cfg : Config} {env : FsmEnv} {d : RvlanDev}

/-- The account after port `i` and the world have become `out`. -/
def HeldAfter (pollFds : Fin n → Int) (pids : Fin n → Nat) (i : Fin n)
    (out : RvlanDev × World n) : Prop :=
  Held out.2 (Function.update pollFds i out.1.pollFd) (Function.update pids i out.1.pid)

@[simp] theorem heldAfter_update {fd : Int} {out : RvlanDev × World n} :
    HeldAfter (Function.update pollFds i fd) pids i out ↔ HeldAfter pollFds pids i out := by
  rw [HeldAfter, HeldAfter, Function.update_idem]

/-- Neither `poll_fd` and `pid` nor the world have changed. -/
theorem Held.same (held : Held w pollFds pids) {d' : RvlanDev} (fd : d'.pollFd = pollFds i)
    (pid : d'.pid = pids i) : HeldAfter pollFds pids i (d', w) := by
  rw [HeldAfter, fd, pid, Function.update_eq_self, Function.update_eq_self]
  exact held

private theorem justup_held_iff (held : Held w pollFds pids) (fd : pollFds i = d.pollFd)
    (pid : pids i = d.pid) (legal : ∀ sock ∈ env.sock, FreshFds w [sock]) :
    HeldAfter pollFds pids i (justup cfg i env d w) ↔ (env.sock ≠ none → d.pollFd < 0) := by
  rw [justup, rvlanChangeVlan]
  cases opened : env.sock with
  | none => exact iff_of_true (held.same fd.symm pid.symm) fun opened => absurd rfl opened
  | some sock =>
    obtain ⟨nonneg, free⟩ := (legal sock opened).2 sock (List.mem_singleton_self sock)
    rw [← fd]
    simp only [HeldAfter, ← pid, Function.update_eq_self]
    simpa using held.opened_iff nonneg free i

private theorem sniff_held (held : Held w pollFds pids) (fd : pollFds i = d.pollFd)
    (pid : pids i = d.pid) {d' : RvlanDev} {w' : World n}
    (found : sniff cfg env d w = some (d', w')) :
    Held w' (Function.update pollFds i (-1)) pids ∧ d'.pollFd = -1 ∧ d'.pid = pids i := by
  obtain ⟨source, rfl, rfl⟩ := sniff_some found
  exact ⟨fd ▸ held.close i, rfl, pid.symm⟩

private theorem radclient_held_iff (held : Held w pollFds pids) (fd : pollFds i = d.pollFd)
    (pid : pids i = d.pid) (closed : d.pollFd < 0) (legal : LegalFork w env.fork) :
    HeldAfter pollFds pids i (radclient i env d w) ↔ CleanFork d w env.fork := by
  rw [radclient]
  cases fork : env.fork with
  | pipe0Failed junk0 junk1 =>
    simp only [HeldAfter, ← fd, ← pid, Function.update_eq_self]
    exact held.close_two_iff junk0 junk1
  | pipe1Failed => exact iff_of_true (held.same fd.symm pid.symm) trivial
  | forkFailed out0 in0 out1 in1 =>
    rw [fork] at legal
    refine iff_of_false (fun after => ?_) id
    -- the last descriptor is open, but `poll_fd` is not valid
    have refers := (after.fds i in1).mp (by simp [World.opened])
    rw [Function.update_self] at refers
    have nonneg := refers.2
    rw [← refers.1] at nonneg
    exact absurd nonneg (not_le.mpr closed)
  | forked out0 in0 out1 in1 pid' =>
    rw [fork] at legal
    obtain ⟨fresh, nonzero, free⟩ := legal
    obtain ⟨nonneg, freeFd⟩ := fresh.2 out1 (by simp)
    have opened := (held.opened_iff nonneg freeFd i).mpr (fd ▸ closed)
    simp only [HeldAfter, World.pipes_eq fresh i pid']
    rw [opened.forked_iff nonzero free i, CleanFork, pid]

private theorem auth_held (held : Held w pollFds pids) (fd : pollFds i = d.pollFd)
    (pid : pids i = d.pid) : HeldAfter pollFds pids i (auth cfg env d w) := by
  have closed := held.close i
  have reaped := closed.reap i
  rw [fd] at closed reaped
  rw [pid] at reaped
  rw [auth]
  split
  · exact held.same fd.symm pid.symm
  split
  · simpa [HeldAfter, ← pid] using closed
  · dsimp only
    split
    · exact held.same fd.symm pid.symm
    · rw [authDone]
      dsimp only
      split
      · exact reaped
      · exact reaped

private theorem wait_held (held : Held w pollFds pids) (fd : pollFds i = d.pollFd)
    (pid : pids i = d.pid) : HeldAfter pollFds pids i (wait d w) := by
  rw [wait]
  split
  · simpa [HeldAfter, ← fd, ← pid] using held.reap i
  · exact held.same fd.symm pid.symm

private theorem godown_held (held : Held w pollFds pids) (fd : pollFds i = d.pollFd)
    (pid : pids i = d.pid) : HeldAfter pollFds pids i (godown cfg env d w) := by
  have world : (if d.pollFd ≥ 0 then w.close d.pollFd else w) = w.close d.pollFd := by
    split
    · rfl
    next closed => rw [World.close_free (held.fds.free closed)]
  have closed := held.close i
  rw [fd] at closed
  rw [godown, rvlanChangeVlan, world]
  dsimp only
  split
  · simpa [HeldAfter, ← pid] using closed
  split
  · simpa [HeldAfter, ← pid] using closed
  · -- the machine goes on with RVLAN_WAIT
    exact heldAfter_update.mp (wait_held closed (by simp) pid)

private theorem upDown_held (d : RvlanDev) :
    (upDown d).pollFd = d.pollFd ∧ (upDown d).pid = d.pid := by
  simp only [upDown]
  split_ifs <;> exact ⟨rfl, rfl⟩

/-- One run of a machine keeps the account exactly if it is clean. -/
theorem rvlanFsm_held_iff (held : Held w pollFds pids) (fd : pollFds i = d.pollFd)
    (pid : pids i = d.pid) (closed : (upDown d).fsmState = .radclient → d.pollFd < 0)
    (legalSock : (upDown d).fsmState = .justup → ∀ sock ∈ env.sock, FreshFds w [sock])
    (legalFork : ∀ start ∈ clientStart cfg env (upDown d) w, LegalFork start.2 env.fork) :
    HeldAfter pollFds pids i (rvlanFsm cfg i env d w) ↔
      ((upDown d).fsmState = .justup → env.sock ≠ none → (upDown d).pollFd < 0) ∧
        ∀ start ∈ clientStart cfg env (upDown d) w, CleanFork start.1 start.2 env.fork := by
  rw [← (upDown_held d).1] at fd closed
  rw [← (upDown_held d).2] at pid
  rw [rvlanFsm]
  -- the link check leaves the descriptors and the processes alone
  generalize upDown d = d at *
  cases state : d.fsmState with
  | justup =>
    simpa [clientStart, state] using justup_held_iff held fd pid (legalSock state)
  | sniff =>
    cases found : sniff cfg env d w with
    | none => simpa [clientStart, state, found] using held.same fd.symm pid.symm
    | some start =>
      obtain ⟨after, fd', pid'⟩ := sniff_held held fd pid found
      have legal := legalFork start (by simp [clientStart, state, found])
      have started := radclient_held_iff after (by simp [fd']) pid'.symm (by simp [fd']) legal
      simpa [clientStart, state, found] using started
  | radclient =>
    have legal := legalFork (d, w) (by simp [clientStart, state])
    simpa [clientStart, state] using radclient_held_iff held fd pid (closed state) legal
  | auth => simpa [clientStart, state] using auth_held held fd pid
  | godown => simpa [clientStart, state] using godown_held held fd pid
  | wait => simpa [clientStart, state] using wait_held held fd pid
  | down => simpa [clientStart, state] using held.same fd.symm pid.symm
  | configured => simpa [clientStart, state] using held.same fd.symm pid.symm
  | config =>
    have same : (config cfg env d).pollFd = d.pollFd ∧ (config cfg env d).pid = d.pid := by
      rw [config, rvlanChangeVlan]
      simp only [apply_ite RvlanDev.pollFd, apply_ite RvlanDev.pid, ite_self, and_self]
    simpa [clientStart, state] using held.same (same.1.trans fd.symm) (same.2.trans pid.symm)

/-! ### Runs -/

/-- No descriptor is held where a client is to be started. -/
def RvlanDev.Closed (d : RvlanDev) : Prop := d.fsmState = .radclient → d.pollFd < 0

private theorem cleared_neg : (-1 : Int) < 0 := by decide

private theorem upDown_closed (closed : d.Closed) : (upDown d).Closed := by
  intro state
  rw [(upDown_held d).1]
  apply closed
  revert state
  simp only [upDown]
  split_ifs <;> simp

private theorem radclient_closed (closed : d.pollFd < 0) : (radclient i env d w).1.Closed := by
  rw [radclient]
  split
  · exact fun _ => closed
  · exact fun _ => closed
  · exact fun _ => closed
  · exact nofun

private theorem auth_closed (state : d.fsmState = .auth) : (auth cfg env d w).1.Closed := by
  have here : d.Closed := by simp [RvlanDev.Closed, state]
  rw [auth]
  split
  · exact here
  split
  · exact nofun
  · dsimp only
    split
    · exact here
    · rw [authDone]
      dsimp only
      split
      · exact fun _ => cleared_neg
      · exact nofun

private theorem wait_closed (state : d.fsmState = .wait) : (wait d w).1.Closed := by
  rw [wait]
  split
  · exact nofun
  · simp [RvlanDev.Closed, state]

private theorem rvlanFsm_closed (closed : d.Closed) : (rvlanFsm cfg i env d w).1.Closed := by
  have moved := upDown_closed closed
  rw [rvlanFsm]
  generalize upDown d = d at moved
  cases state : d.fsmState with
  | justup =>
    rw [justup, rvlanChangeVlan]
    cases env.sock with
    | none => simp [RvlanDev.Closed, state]
    | some sock => exact nofun
  | sniff =>
    cases found : sniff cfg env d w with
    | none => exact moved
    | some start =>
      -- sniffing cleared the descriptor before the client starts
      have cleared : start.1.pollFd < 0 := by
        obtain ⟨source, same, -⟩ := sniff_some found
        rw [same]
        exact cleared_neg
      exact radclient_closed cleared
  | radclient => exact radclient_closed (moved state)
  | auth => exact auth_closed state
  | config =>
    rw [config, rvlanChangeVlan]
    dsimp only
    split
    · exact nofun
    · simp [RvlanDev.Closed, state]
  | godown =>
    rw [godown, rvlanChangeVlan]
    dsimp only
    split
    · simp [RvlanDev.Closed, state]
    split
    · exact nofun
    · exact wait_closed rfl
  | wait => exact wait_closed state
  | down => exact moved
  | configured => exact moved

/-- The account is settled, and no port will lose a descriptor by starting a client. -/
structure Inv (s : System n) : Prop where
  accounted : Accounted s
  closed : ∀ i, (s.devs i).Closed

private theorem System.init_inv (ports : Fin n → Port) : Inv (.init ports) where
  accounted := by
    constructor <;> intro i k <;> simp [System.init, World.empty, Port.dev]
    · omega
    · omega
  closed := by
    intro i state
    exact cleared_neg

private theorem accounted_fsm_iff {s : System n} (inv : Inv s) (legal : Legal cfg s (.fsm i env)) :
    Accounted (s.step cfg (.fsm i env)) ↔ Clean cfg s (.fsm i env) := by
  have after := rvlanFsm_held_iff inv.accounted (d := s.devs i) rfl rfl
    (fun state => (upDown_held (s.devs i)).1 ▸ upDown_closed (inv.closed i) state) legal.1 legal.2
  rw [Clean, ← after, Accounted, HeldAfter, System.step]
  have fds : ∀ d : RvlanDev, (fun j => (Function.update s.devs i d j).pollFd) =
      Function.update (fun j => (s.devs j).pollFd) i d.pollFd := fun d =>
    funext fun j => Function.apply_update (fun _ => RvlanDev.pollFd) s.devs i d j
  have pids : ∀ d : RvlanDev, (fun j => (Function.update s.devs i d j).pid) =
      Function.update (fun j => (s.devs j).pid) i d.pid := fun d =>
    funext fun j => Function.apply_update (fun _ => RvlanDev.pid) s.devs i d j
  dsimp only
  rw [fds, pids]

private theorem netlink_world (s : System n) (msgs : List (Fin n × Bool)) :
    (rvlanProcessNetlink s msgs).world = s.world := by
  induction msgs generalizing s with
  | nil => rfl
  | cons msg msgs ih => exact ih _

private theorem netlink_kept (s : System n) (msgs : List (Fin n × Bool)) (i : Fin n) :
    ((rvlanProcessNetlink s msgs).devs i).pollFd = (s.devs i).pollFd ∧
      ((rvlanProcessNetlink s msgs).devs i).pid = (s.devs i).pid ∧
      ((rvlanProcessNetlink s msgs).devs i).fsmState = (s.devs i).fsmState := by
  induction msgs generalizing s with
  | nil => exact ⟨rfl, rfl, rfl⟩
  | cons msg msgs ih =>
    obtain ⟨fd, pid, state⟩ := ih (s.setDev msg.1 { s.devs msg.1 with upNow := msg.2 })
    -- a message sets `up_now` only
    by_cases same : i = msg.1
    · subst same
      simp only [System.setDev, Function.update_self] at fd pid state
      exact ⟨fd, pid, state⟩
    · simp only [System.setDev, Function.update_of_ne same] at fd pid state
      exact ⟨fd, pid, state⟩

private theorem accounted_netlink_iff (s : System n) (msgs : List (Fin n × Bool)) :
    Accounted (rvlanProcessNetlink s msgs) ↔ Accounted s := by
  rw [Accounted, Accounted, netlink_world, funext fun i => (netlink_kept s msgs i).1,
    funext fun i => (netlink_kept s msgs i).2.1]

/-- A legal step keeps the account exactly if it is clean. -/
theorem accounted_step_iff {s : System n} {e : Event n} (inv : Inv s) (legal : Legal cfg s e) :
    Accounted (s.step cfg e) ↔ Clean cfg s e := by
  cases e with
  | fsm i env => exact accounted_fsm_iff inv legal
  | netlink msgs => exact iff_of_true ((accounted_netlink_iff s msgs).mpr inv.accounted) trivial
  | reauth => exact iff_of_true inv.accounted trivial
  | exit pid => exact iff_of_true ⟨inv.accounted.fds, inv.accounted.children⟩ trivial

private theorem inv_step {s : System n} {e : Event n} (inv : Inv s) (legal : Legal cfg s e)
    (clean : Clean cfg s e) : Inv (s.step cfg e) where
  accounted := (accounted_step_iff inv legal).mpr clean
  closed := by
    intro i
    cases e with
    | fsm j env =>
      by_cases same : i = j
      · subst same
        simpa [System.step] using rvlanFsm_closed (inv.closed i)
      · simpa [System.step, same] using inv.closed i
    | netlink msgs =>
      obtain ⟨fd, -, state⟩ := netlink_kept s msgs i
      intro radclient
      exact fd ▸ inv.closed i (state ▸ radclient)
    | reauth => exact nofun
    | exit pid => exact inv.closed i

/-- In the runs in which the kernel answers as it does, `poll_fd` and `pid` account for all
descriptors and children in all states exactly if all steps are clean. -/
theorem accounted_iff (cfg : Config) (ports : Fin n → Port) (es : List (Event n))
    (legal : Along (Legal cfg) (System.step cfg) (.init ports) es) :
    (∀ k, Accounted (run (System.step cfg) (.init ports) (es.take k))) ↔
      Along (Clean cfg) (System.step cfg) (.init ports) es :=
  run_good_iff Inv Accounted (fun _ inv => inv.accounted) (fun _ _ inv => inv_step inv)
    (fun _ _ inv legal => (accounted_step_iff inv legal).mp) (System.init_inv ports) legal

def onePort : Fin 1 → Port := fun _ => ⟨1, 10, true⟩

def vlanConfig : Config where
  authVlan := 4001
  noauthVlan := 4002
  obeyDotconfig := false
  dryrun := false
  localMacs := []

/-- All calls succeed: the socket is 5, the pipes and the child are as given. -/
def grantedEnv (fork : ForkResult) (data : List Char) : Event 1 :=
  .fsm (Fin.last 0) {
    cmdOk := true
    sock := some 5
    readable := true
    recv := some (List.replicate 14 1)
    fork := fork
    data := some data
    status := 0 }

/-- A client is asked, the link goes down, and the client is waited for. -/
def linkLost : List (Event 1) :=
  [grantedEnv .pipe1Failed [], grantedEnv (.forked 6 7 8 9 100) [], .netlink [(Fin.last 0, false)],
    grantedEnv .pipe1Failed [], .exit 100, grantedEnv .pipe1Failed []]

/-- Losing the link gives everything back. -/
theorem accounted_linkLost :
    Accounted (run (System.step vlanConfig) (.init onePort) (linkLost.take 6)) :=
  (accounted_iff vlanConfig onePort linkLost (by decide)).mpr (by decide) 6

/-- SIGUSR2 while a client is asked: its pipe and then the client itself are forgotten. -/
def reauthInAuth : List (Event 1) :=
  [grantedEnv .pipe1Failed [], grantedEnv (.forked 6 7 8 9 100) [], .reauth,
    grantedEnv .pipe1Failed [], grantedEnv (.forked 10 11 12 13 101) []]

/-- A request in the middle of a query forgets its child and descriptor. -/
theorem reauth_forgets :
    Along (Legal vlanConfig) (System.step vlanConfig) (.init onePort) reauthInAuth ∧
    (let s := run (System.step vlanConfig) (.init onePort) reauthInAuth
    s.world.fds 8 = some 0 ∧ (s.devs 0).pollFd = 12 ∧
      s.world.children 100 = some 0 ∧ (s.devs 0).pid = 101 ∧ ¬Accounted s) := by
  refine ⟨by decide, by decide, by decide, by decide, by decide, fun accounted => ?_⟩
  have refers := (accounted.fds 0 8).mp (by decide)
  exact absurd refers.1 (by decide)

end WrSwitch.RadiusVlan
