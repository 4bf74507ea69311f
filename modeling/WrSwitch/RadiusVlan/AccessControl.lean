import WrSwitch.RadiusVlan.Fsm

/-!
# Access control

While a port is not authorised it is in the VLAN for that, unless all commands to put it there
failed, and it goes to a VLAN of its own only by an answer of the radius server to a query for
the address that was sniffed while the link was up.
-/
namespace WrSwitch.RadiusVlan

open Machine

/-! ### What is asked of the log -/

/-- The VLAN last successfully programmed. -/
def programmed : List Obs → Option Int
  | [] => none
  | .change vlan true :: _ => some vlan
  | _ :: log => programmed log

def sinceReauth (log : List Obs) : List Obs := log.takeWhile (· ≠ .reauth)

/-- Since the machine last ran with the link down. -/
def session (log : List Obs) : List Obs := log.takeWhile (· ≠ .link false)

/-- The port is in the VLAN for authentication, or no command has succeeded since the start or
the last request to authenticate again. -/
def InAuthVlan (cfg : Config) (log : List Obs) : Prop :=
  programmed log = some cfg.authVlan ∨ ∀ vlan, .change vlan true ∉ sinceReauth log

/-- An accepted answer with a VLAN, and the VLAN that the port gets by it. -/
def Accepted (cfg : Config) (dotconfigVlan : Int) (out : List Char) (vlan : Int) : Prop :=
  (strstr framedUser (cstr out)).isSome ∧
    ∃ s, groupValue out = some s ∧
      if cfg.obeyDotconfig then vlan = dotconfigVlan else scanInt s.tail = some vlan

/-- In this session an address was sniffed, a client asked for it, and its output, complete or
as much as the buffer holds, is an accepted answer. -/
def Authorised (cfg : Config) (dotconfigVlan : Int) (log : List Obs) (vlan : Int) : Prop :=
  ∃ mac out eof, [.answer mac out eof, .query mac, .sniff mac].Sublist (session log) ∧
    (eof = true ∨ out.length = radbufferMax) ∧ Accepted cfg dotconfigVlan out vlan

/-- Whenever a VLAN was programmed, the port was authorised for it before. -/
def Justified (cfg : Config) (dotconfigVlan : Int) : List Obs → Prop
  | [] => True
  | .change vlan true :: log =>
    (vlan = cfg.authVlan ∨ vlan = cfg.noauthVlan ∨ Authorised cfg dotconfigVlan log vlan) ∧
      Justified cfg dotconfigVlan log
  | _ :: log => Justified cfg dotconfigVlan log

/-- Sniffing, waiting for the radius client or authenticating. -/
def FsmState.unauthorised (state : FsmState) : Prop :=
  state = .sniff ∨ state = .radclient ∨ state = .auth

/-! ### Texts -/

private theorem strstr_none (c : Char) (needle s : List Char) (absent : c ∉ s) :
    strstr (c :: needle) s = none := by
  induction s with
  | nil => simp [strstr]
  | cons x s ih =>
    rw [List.mem_cons, not_or] at absent
    have other : (c :: needle).isPrefixOf (x :: s) = false := by
      simp [List.isPrefixOf, absent.1]
    rw [strstr, other, ih absent.2]
    rfl

private theorem cstr_subset (buf : List Char) : cstr buf ⊆ buf := (List.takeWhile_sublist _).subset

private theorem digit_ne_F (n : Nat) : hexDigit n ≠ 'F' := by
  have all : ∀ k < 16, Nat.digitChar k ≠ 'F' := by decide
  exact all _ (Nat.mod_lt _ (by decide))

private theorem hexText_no_F (bytes : List (BitVec 8)) : 'F' ∉ hexText bytes := by
  intro member
  obtain ⟨b, -, digit⟩ := List.mem_flatMap.mp member
  rcases List.mem_pair.mp digit with high | low
  · exact digit_ne_F _ high.symm
  · exact digit_ne_F _ low.symm

/-- A query that is still in the buffer is no accepted answer. -/
theorem queryText_refused (d : RvlanDev) (hex : 'F' ∉ d.peerMac) :
    strstr framedUser (cstr (queryText d)) = none := by
  apply strstr_none
  intro member
  have digits : 'F' ∉ Nat.toDigits 10 d.portnr := by
    intro digit
    have bound := Nat.isDigit_of_mem_toDigits (by decide) (by decide) digit
    exact absurd bound (by decide)
  have text := cstr_subset _ member
  simp only [queryText, List.mem_append] at text
  simp only [hex, digits, or_false] at text
  revert text
  decide

/-! ### One entry more -/

/-- Entries other than a successful command, a request and the end of a session. -/
def Obs.plain : Obs → Bool
  | .link up => up
  | .change _ ok => !ok
  | .sniff _ | .query _ | .answer _ _ _ => true
  | .reauth => false

private theorem session_cons {o : Obs} (log : List Obs) (up : o ≠ .link false) :
    session (o :: log) = o :: session log := by
  simp [session, up]

private theorem programmed_plain {o : Obs} (log : List Obs) (plain : o.plain = true) :
    programmed (o :: log) = programmed log := by
  cases o with
  | change vlan ok => cases ok with
    | true => cases plain
    | false => rfl
  | _ => rfl

/-- A plain entry of the log leaves the VLAN as it is. -/
theorem InAuthVlan.plain {cfg : Config} {o : Obs} {log : List Obs} (inside : InAuthVlan cfg log)
    (plain : o.plain = true) : InAuthVlan cfg (o :: log) := by
  rcases inside with auth | none
  · exact .inl ((programmed_plain log plain).trans auth)
  · right
    intro vlan member
    have other : o ≠ .reauth := by
      rintro rfl
      cases plain
    have cons : sinceReauth (o :: log) = o :: sinceReauth log := by simp [sinceReauth, other]
    rw [cons, List.mem_cons] at member
    rcases member with rfl | old
    · cases plain
    · exact none vlan old

/-- An entry that is no successful command needs no justification. -/
theorem Justified.plain {cfg : Config} {dotconfigVlan : Int} {o : Obs} {log : List Obs}
    (justified : Justified cfg dotconfigVlan log)
    (other : ∀ vlan, o ≠ .change vlan true) : Justified cfg dotconfigVlan (o :: log) := by
  cases o with
  | change vlan ok => cases ok with
    | true => exact absurd rfl (other vlan)
    | false => exact justified
  | _ => exact justified

/-- A port stays authorised until the session ends. -/
theorem Authorised.cons {cfg : Config} {dotconfigVlan vlan : Int} {log : List Obs} {o : Obs}
    (authorised : Authorised cfg dotconfigVlan log vlan) (up : o ≠ .link false) :
    Authorised cfg dotconfigVlan (o :: log) vlan := by
  obtain ⟨mac, out, eof, inSession, rest⟩ := authorised
  refine ⟨mac, out, eof, ?_, rest⟩
  rw [session_cons log up]
  exact inSession.cons _

/-! ### The machine -/

/-- What the states of a machine say about its log. -/
structure FsmInv (cfg : Config) (d : RvlanDev) : Prop where
  temporary : d.fsmState = .justup ∨ d.fsmState.unauthorised → InAuthVlan cfg d.log
  down : d.fsmState = .down ∨ d.fsmState = .wait → programmed d.log = some cfg.authVlan
  hex : 'F' ∉ d.peerMac
  sniffed : d.fsmState = .radclient → .sniff d.peerMac ∈ session d.log
  asked : d.fsmState = .auth → d.asked = d.peerMac ∧
    [.query d.peerMac, .sniff d.peerMac].Sublist (session d.log)
  buffer : d.fsmState = .auth → d.radbufferSize ≤ radbufferMax ∧
    (d.radbufferSize = 0 ∧ strstr framedUser (cstr d.radbuffer) = none ∨
      d.radbuffer.length = d.radbufferSize)
  chosen : d.fsmState = .config → d.chosenVlan = cfg.noauthVlan ∨
    Authorised cfg d.dotconfigVlan d.log d.chosenVlan
  justified : Justified cfg d.dotconfigVlan d.log

variable {cfg : Config}

/-- Noting the link keeps the invariant. -/
theorem FsmInv.upDown {d : RvlanDev} (inv : FsmInv cfg d) : FsmInv cfg (upDown d) := by
  have justified : Justified cfg d.dotconfigVlan (.link d.upNow :: d.log) :=
    inv.justified.plain nofun
  have kept : programmed (.link d.upNow :: d.log) = programmed d.log := rfl
  cases up : d.upNow with
  | false =>
    -- the machine goes to GODOWN unless it is DOWN
    by_cases down : d.fsmState = .down
    · have moved : RadiusVlan.upDown d = { d with log := .link false :: d.log } := by
        simp [RadiusVlan.upDown, up, down]
      rw [moved]
      rw [up] at justified kept
      constructor <;> simp [down, FsmState.unauthorised, inv.hex]
      · exact kept.trans (inv.down (.inl down))
      · exact justified
    · have moved : RadiusVlan.upDown d =
          { d with log := .link false :: d.log, fsmState := .godown } := by
        simp [RadiusVlan.upDown, up, down]
      rw [moved]
      rw [up] at justified
      constructor <;> simp [FsmState.unauthorised, inv.hex]
      exact justified
  | true =>
    have plain : (Obs.link true).plain = true := rfl
    rw [up] at justified kept
    by_cases down : d.fsmState = .down
    · have moved : RadiusVlan.upDown d =
          { d with log := .link true :: d.log, fsmState := .justup } := by
        simp [RadiusVlan.upDown, up, down]
      rw [moved]
      constructor <;> simp [FsmState.unauthorised, inv.hex]
      · exact .inl (kept.trans (inv.down (.inl down)))
      · exact justified
    · have moved : RadiusVlan.upDown d = { d with log := .link true :: d.log } := by
        simp [RadiusVlan.upDown, up, down]
      have longer : session (.link true :: d.log) = .link true :: session d.log :=
        session_cons d.log nofun
      rw [moved]
      exact {
        temporary := fun state => (inv.temporary state).plain plain
        down := fun state => kept.trans (inv.down state)
        hex := inv.hex
        sniffed := fun state => longer ▸ List.mem_cons_of_mem _ (inv.sniffed state)
        asked := fun state =>
          ⟨(inv.asked state).1, longer ▸ (inv.asked state).2.cons _⟩
        buffer := inv.buffer
        chosen := fun state => (inv.chosen state).imp_right (·.cons nofun)
        justified := justified }

/-! ### States -/

variable {n : Nat} {i : Fin n} {env : FsmEnv} {d : RvlanDev} {w : World n}

/-- A command for the VLAN for authentication. -/
theorem auth_change {dotconfigVlan : Int} {log : List Obs} (ok : Bool)
    (justified : Justified cfg dotconfigVlan log) :
    Justified cfg dotconfigVlan (.change cfg.authVlan ok :: log) := by
  cases ok with
  | true => exact ⟨.inl rfl, justified⟩
  | false => exact justified

/-- JUSTUP tries to put the port into the VLAN for authentication. -/
theorem FsmInv.justup (inv : FsmInv cfg d) (state : d.fsmState = .justup) :
    FsmInv cfg (justup cfg i env d w).1 := by
  have inside := inv.temporary (.inl state)
  have after : InAuthVlan cfg (.change cfg.authVlan (cfg.dryrun || env.cmdOk) :: d.log) := by
    cases cfg.dryrun || env.cmdOk with
    | true => exact .inl rfl
    | false => exact inside.plain rfl
  have justified := auth_change (cfg.dryrun || env.cmdOk) inv.justified
  rw [RadiusVlan.justup, rvlanChangeVlan]
  cases env.sock with
  | none => constructor <;> simp [state, FsmState.unauthorised, inv.hex, after, justified]
  | some sock => constructor <;> simp [FsmState.unauthorised, inv.hex, after, justified]

/-- With a frame from the port the machine goes on to the radius client. -/
theorem FsmInv.sniff (inv : FsmInv cfg d) (state : d.fsmState = .sniff) {d' : RvlanDev}
    {w' : World n} (found : sniff cfg env d w = some (d', w')) :
    FsmInv cfg d' ∧ d'.fsmState = .radclient := by
  have inside := inv.temporary (.inr (.inl state))
  obtain ⟨source, rfl, rfl⟩ := sniff_some found
  refine ⟨?_, rfl⟩
  constructor <;> simp [FsmState.unauthorised, hexText_no_F, session]
  · exact inside.plain rfl
  · exact inv.justified

/-- The client is started. -/
theorem FsmInv.radclient (inv : FsmInv cfg d) (state : d.fsmState = .radclient) :
    FsmInv cfg (radclient i env d w).1 := by
  have inside := inv.temporary (.inr (.inr (.inl state)))
  have sniffed := inv.sniffed state
  rw [RadiusVlan.radclient]
  split
  · exact inv
  · exact inv
  · exact inv
  · have asked : [Obs.query d.peerMac, .sniff d.peerMac].Sublist
        (session (.query d.peerMac :: d.log)) := by
      rw [session_cons d.log (by simp)]
      exact (List.singleton_sublist.mpr sniffed).cons_cons _
    constructor <;> simp [FsmState.unauthorised, inv.hex, asked, queryText_refused]
    · exact inside.plain rfl
    · exact inv.justified

/-- The port is moved to the VLAN that was chosen. -/
theorem FsmInv.config (inv : FsmInv cfg d) (state : d.fsmState = .config) :
    FsmInv cfg (config cfg env d) := by
  have chosen := inv.chosen state
  rw [RadiusVlan.config, rvlanChangeVlan]
  cases cfg.dryrun || env.cmdOk with
  | true =>
    have justified : Justified cfg d.dotconfigVlan (.change d.chosenVlan true :: d.log) :=
      ⟨.inr chosen, inv.justified⟩
    constructor <;> simp [FsmState.unauthorised, inv.hex, justified]
  | false =>
    have justified : Justified cfg d.dotconfigVlan (.change d.chosenVlan false :: d.log) :=
      inv.justified
    have still := chosen.imp_right (·.cons (o := .change d.chosenVlan false) nofun)
    constructor <;> simp [state, FsmState.unauthorised, inv.hex, justified, still]

/-- The port waits. -/
theorem FsmInv.wait (inv : FsmInv cfg d) (state : d.fsmState = .wait) :
    FsmInv cfg (wait d w).1 := by
  have programmed := inv.down (.inr state)
  rw [RadiusVlan.wait]
  split
  · constructor <;> simp [FsmState.unauthorised, inv.hex, programmed, inv.justified]
  · exact inv

/-- The link went down: the port is moved away. -/
theorem FsmInv.godown (inv : FsmInv cfg d) (state : d.fsmState = .godown) :
    FsmInv cfg (godown cfg env d w).1 := by
  have justified := auth_change (cfg.dryrun || env.cmdOk) inv.justified
  rw [RadiusVlan.godown, rvlanChangeVlan]
  revert justified
  cases cfg.dryrun || env.cmdOk with
  | false =>
    intro justified
    constructor <;> simp [state, FsmState.unauthorised, justified]
  | true =>
    intro justified
    simp only [Bool.not_true, Bool.false_eq_true, if_false]
    split
    · constructor <;> simp [FsmState.unauthorised, programmed, justified]
    · apply FsmInv.wait
      · constructor <;> simp [FsmState.unauthorised, programmed, justified]
      · rfl

private theorem parseAnswer_accepted (cfg : Config) (dotconfigVlan : Int) (buf : List Char) :
    parseAnswer cfg dotconfigVlan buf = cfg.noauthVlan ∨
      Accepted cfg dotconfigVlan buf (parseAnswer cfg dotconfigVlan buf) := by
  rw [parseAnswer]
  split
  next framed =>
    cases value : groupValue buf with
    | none => exact .inl rfl
    | some s =>
      dsimp only
      split
      next obey => exact .inr ⟨framed, s, value, by simp [obey]⟩
      next obey =>
        cases number : scanInt s.tail with
        | none => exact .inl rfl
        | some vlan => exact .inr ⟨framed, s, value, by simp [obey, number]⟩
  next => exact .inl rfl

private theorem parseAnswer_refused {dotconfigVlan : Int} {buf : List Char}
    (refused : strstr framedUser (cstr buf) = none) :
    parseAnswer cfg dotconfigVlan buf = cfg.noauthVlan := by
  simp [parseAnswer, refused]

/-- The answer is there, or the buffer is full. -/
theorem FsmInv.authDone (inv : FsmInv cfg d) (state : d.fsmState = .auth) (eof : Bool)
    (done : eof = true ∨ d.radbufferSize = radbufferMax) :
    FsmInv cfg (authDone cfg env eof d w).1 := by
  have inside := inv.temporary (.inr (.inr (.inr state)))
  obtain ⟨asked, queried⟩ := inv.asked state
  have longer : session (.answer d.asked (d.radbuffer.take d.radbufferSize) eof :: d.log) =
      .answer d.asked (d.radbuffer.take d.radbufferSize) eof :: session d.log :=
    session_cons d.log (by simp)
  have sniffed : Obs.sniff d.peerMac ∈ session d.log := queried.subset (by simp)
  rw [RadiusVlan.authDone]
  split
  · -- the server failed: a client will be started for the same address
    constructor <;> simp [FsmState.unauthorised, inv.hex, longer, sniffed]
    · exact inside.plain rfl
    · exact inv.justified
  · constructor <;> simp [FsmState.unauthorised, inv.hex]
    · rcases (inv.buffer state).2 with ⟨-, refused⟩ | full
      · exact .inl (parseAnswer_refused refused)
      · -- the VLAN is taken from an answer to the address sniffed in this session
        refine (parseAnswer_accepted cfg d.dotconfigVlan d.radbuffer).imp_right fun accepted => ?_
        have all : d.radbuffer.take d.radbufferSize = d.radbuffer := by
          rw [← full, List.take_length]
        refine ⟨d.peerMac, d.radbuffer, eof, ?_, done.imp_right full.trans, accepted⟩
        rw [longer, all, asked]
        exact queried.cons_cons _
    · exact inv.justified

/-- Another part of the answer comes in. -/
theorem FsmInv.auth (inv : FsmInv cfg d) (state : d.fsmState = .auth) :
    FsmInv cfg (auth cfg env d w).1 := by
  have inside := inv.temporary (.inr (.inr (.inr state)))
  obtain ⟨bound, buffer⟩ := inv.buffer state
  rw [RadiusVlan.auth]
  split
  · exact inv
  split
  · constructor <;> simp [FsmState.unauthorised, inv.hex]
    exact inv.justified
  next data _ =>
    dsimp only
    split
    · -- more of the output: what is in the buffer is all of it so far
      have lengths : (d.radbuffer.take d.radbufferSize).length = d.radbufferSize := by
        rcases buffer with ⟨empty, -⟩ | full
        · simp [empty]
        · simp [full]
      constructor <;> simp [state, FsmState.unauthorised, inv.hex, inside, inv.asked state,
        inv.justified]
      simp only [List.length_take] at lengths
      omega
    next nothing =>
      -- nothing was added: the pipe is at its end or the buffer is full
      have done : decide (data = []) = true ∨ d.radbufferSize = radbufferMax := by
        rcases List.take_eq_nil_iff.mp (not_not.mp nothing) with room | empty
        · exact .inr (by omega)
        · exact .inl (decide_eq_true empty)
      exact inv.authDone state _ done

/-- Every run of a machine keeps its invariant. -/
theorem FsmInv.rvlanFsm (inv : FsmInv cfg d) : FsmInv cfg (rvlanFsm cfg i env d w).1 := by
  have moved := inv.upDown
  rw [RadiusVlan.rvlanFsm]
  generalize RadiusVlan.upDown d = d at moved
  cases state : d.fsmState with
  | down => exact moved
  | configured => exact moved
  | justup => exact moved.justup state
  | sniff =>
    dsimp only
    split
    · exact moved
    next found =>
      -- a found address falls through into the next state
      obtain ⟨sniffed, radclient⟩ := moved.sniff state found
      exact sniffed.radclient radclient
  | radclient => exact moved.radclient state
  | auth => exact moved.auth state
  | config => exact moved.config state
  | godown => exact moved.godown state
  | wait => exact moved.wait state

/-! ### Runs -/

private theorem upDown_dotconfig (d : RvlanDev) : (upDown d).dotconfigVlan = d.dotconfigVlan := by
  simp only [upDown]
  split_ifs <;> rfl

private theorem radclient_dotconfig :
    (radclient i env d w).1.dotconfigVlan = d.dotconfigVlan := by
  rw [radclient]
  split <;> rfl

private theorem wait_dotconfig : (wait d w).1.dotconfigVlan = d.dotconfigVlan := by
  rw [wait]
  split <;> rfl

private theorem rvlanFsm_dotconfig :
    (rvlanFsm cfg i env d w).1.dotconfigVlan = d.dotconfigVlan := by
  -- the machine decides on the state after the link check
  rw [← upDown_dotconfig d, rvlanFsm]
  generalize upDown d = d
  cases d.fsmState with
  | down => rfl
  | configured => rfl
  | justup =>
    dsimp only [justup, rvlanChangeVlan]
    split <;> rfl
  | sniff =>
    dsimp only
    split
    · rfl
    next found =>
      obtain ⟨source, rfl, rfl⟩ := sniff_some found
      rw [radclient_dotconfig]
  | radclient => exact radclient_dotconfig
  | auth =>
    dsimp only [auth, authDone]
    split_ifs
    · rfl
    · split
      · rfl
      · split_ifs <;> rfl
    · split
      · rfl
      · split_ifs <;> rfl
  | config =>
    rw [config, rvlanChangeVlan]
    simp only [apply_ite RvlanDev.dotconfigVlan, ite_self]
  | godown =>
    rw [godown, rvlanChangeVlan]
    dsimp only
    split
    · rfl
    split
    · rfl
    · exact wait_dotconfig
  | wait => exact wait_dotconfig

/-- The machines of all ports; the VLANs of the configuration file do not change. -/
def SystemInv (cfg : Config) (ports : Fin n → Port) (s : System n) : Prop :=
  ∀ i, FsmInv cfg (s.devs i) ∧ (s.devs i).dotconfigVlan = (ports i).dotconfigVlan

variable {ports : Fin n → Port}

/-- The invariant holds when the program starts. -/
theorem SystemInv.init : SystemInv cfg ports (.init ports) := by
  intro i
  refine ⟨?_, rfl⟩
  constructor <;> simp [System.init, Port.dev, FsmState.unauthorised, InAuthVlan, sinceReauth,
    Justified]
  all_goals split <;> simp

/-- Messages of the kernel change the links only. -/
theorem SystemInv.netlink {s : System n} (inv : SystemInv cfg ports s)
    (msgs : List (Fin n × Bool)) : SystemInv cfg ports (rvlanProcessNetlink s msgs) := by
  induction msgs generalizing s with
  | nil => exact inv
  | cons msg msgs ih =>
    apply ih
    intro i
    by_cases same : i = msg.1
    · subst same
      obtain ⟨machine, dotconfig⟩ := inv msg.1
      simp only [System.setDev, Function.update_self]
      -- only `up_now` changes
      exact ⟨{ machine with }, dotconfig⟩
    · simpa [System.setDev, same] using inv i

/-- A request starts the session again. -/
theorem FsmInv.reauth (inv : FsmInv cfg d) :
    FsmInv cfg { d with fsmState := .justup, log := .reauth :: d.log } := by
  have justified : Justified cfg d.dotconfigVlan (.reauth :: d.log) := inv.justified
  constructor <;> simp [FsmState.unauthorised, inv.hex, justified, InAuthVlan, sinceReauth]

/-- Every step keeps the invariant. -/
theorem SystemInv.step {s : System n} (inv : SystemInv cfg ports s) (e : Event n) :
    SystemInv cfg ports (s.step cfg e) := by
  cases e with
  | netlink msgs => exact inv.netlink msgs
  | fsm i env =>
    intro j
    by_cases same : j = i
    · subst same
      simp only [System.step, Function.update_self]
      exact ⟨(inv j).1.rvlanFsm, rvlanFsm_dotconfig.trans (inv j).2⟩
    · simpa [System.step, same] using inv j
  | reauth => exact fun i => ⟨(inv i).1.reauth, (inv i).2⟩
  | exit pid => exact inv

/-- A port that is not authorised is in the VLAN for that unless no command has succeeded, and
what is programmed otherwise was accepted in the session. -/
theorem access_controlled (cfg : Config) (ports : Fin n → Port) (es : List (Event n))
    (i : Fin n) :
    let d := (run (System.step cfg) (.init ports) es).devs i
    (d.fsmState.unauthorised → InAuthVlan cfg d.log) ∧
      Justified cfg (ports i).dotconfigVlan d.log := by
  have inv : SystemInv cfg ports (run (System.step cfg) (.init ports) es) :=
    run_preserves _ _ (fun _ e inv => inv.step e) _ es .init
  obtain ⟨machine, dotconfig⟩ := inv i
  exact ⟨fun state => machine.temporary (.inr state), dotconfig ▸ machine.justified⟩

/-! ### An ignored error, a full buffer and a flap -/

def exampleConfig : Config where
  authVlan := 4001
  noauthVlan := 4002
  obeyDotconfig := false
  dryrun := false
  localMacs := []

def exampleEnv (cmdOk : Bool) (data : List Char) : FsmEnv where
  cmdOk := cmdOk
  sock := some 5
  readable := true
  recv := some (List.replicate 14 1)
  fork := .forked 6 7 8 9 100
  data := some data
  status := 0

def exampleAnswer : List Char :=
  framedUser ++ tunnelGroupId ++ ['"', '1', '0', '0', '"']

/-- From JUSTUP to CONFIGURED, with two reads from the client. -/
def authenticate (first second : List Char) : List (Event 1) :=
  [exampleEnv true [], exampleEnv true [], exampleEnv true first, exampleEnv true second,
    exampleEnv true []].map (.fsm 0)

/-- The port of a program that has just found the link up. -/
def examplePort (es : List (Event 1)) : RvlanDev :=
  (run (System.step exampleConfig) (.init fun _ => ⟨1, 10, true⟩) es).devs 0

/-- The link goes down and up in one buffer of messages. -/
def flap : Event 1 := .netlink [(0, false), (0, true)]

/-- The command fails when the port is to leave VLAN 100 for authenticating again; an answer is
taken for complete when the buffer is full; and after a flap that no machine has run in, the port
goes to the VLAN of the address that was sniffed before. -/
theorem access_not_controlled :
    (let d := examplePort
      (authenticate exampleAnswer [] ++ [.reauth, .fsm 0 (exampleEnv false [])])
    d.fsmState = .sniff ∧ programmed d.log = some 100) ∧
    (let d := examplePort
      (authenticate (exampleAnswer ++ List.replicate radbufferMax 'x') ['x'])
    programmed d.log = some 100 ∧ ∀ mac out, .answer mac out true ∉ d.log) ∧
    (let before := (authenticate exampleAnswer []).take 2 ++ [flap]
    let d := examplePort (before ++ (authenticate exampleAnswer []).drop 2)
    programmed d.log = some 100 ∧
      ∀ mac, .sniff mac ∉ d.log.take (d.log.length - (examplePort before).log.length)) := by
  have full :
      let d := examplePort
        (authenticate (exampleAnswer ++ List.replicate radbufferMax 'x') ['x'])
      programmed d.log = some 100 ∧
        d.log.any (fun | .answer _ _ eof => eof | _ => false) = false := by
    decide +kernel
  have flapped :
      let before := (authenticate exampleAnswer []).take 2 ++ [flap]
      let d := examplePort (before ++ (authenticate exampleAnswer []).drop 2)
      programmed d.log = some 100 ∧
        (d.log.take (d.log.length - (examplePort before).log.length)).any
          (fun | .sniff _ => true | _ => false) = false := by
    decide +kernel
  refine ⟨by decide +kernel, ⟨full.1, ?_⟩, flapped.1, ?_⟩
  · intro mac out member
    have incomplete := List.any_eq_false.mp full.2 _ member
    simp at incomplete
  · intro mac member
    have later := List.any_eq_false.mp flapped.2 _ member
    simp at later

end WrSwitch.RadiusVlan
