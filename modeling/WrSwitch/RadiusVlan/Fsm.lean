import WrSwitch.Machine.Run
import WrSwitch.Tools.WrsVlans

/-!
# The state machine of radiusvlan

One machine per port, run after each `select`, with the system calls it makes: the command
that changes a VLAN, the sniffing socket, the radius client and the pipe from it.
-/
namespace WrSwitch.RadiusVlan

/-! ### Texts -/

/-- The characters of a C string. -/
def cstr (buf : List Char) : List Char := buf.takeWhile (· ≠ '\x00')

def strstr (needle : List Char) : List Char → Option (List Char)
  | [] => if needle = [] then some [] else none
  | c :: cs => if needle.isPrefixOf (c :: cs) then some (c :: cs) else strstr needle cs

def strchr (c : Char) (s : List Char) : Option (List Char) :=
  match s.dropWhile (· ≠ c) with
  | [] => none
  | rest => some rest

/-- `sscanf` with `%i`: nothing is stored unless there is a number. -/
def scanInt (s : List Char) : Option Int :=
  let (val, endptr) := Tools.strtol s
  if endptr = s then none else some val

def hexDigit (n : Nat) : Char := Nat.digitChar (n % 16)

/-- `%02x` of each byte. -/
def hexText (bytes : List (BitVec 8)) : List Char :=
  bytes.flatMap fun b => [hexDigit (b.toNat / 16), hexDigit b.toNat]

/-! ### Devices -/

inductive FsmState
  | godown | down | justup | sniff | radclient | auth | config | configured | wait
deriving DecidableEq, Repr

/-- What happened at a port. -/
inductive Obs
  /-- the machine ran with the link up or down -/
  | link (up : Bool)
  /-- `rvlan_change_vlan` and whether it succeeded -/
  | change (vlan : Int) (ok : Bool)
  | sniff (mac : List Char)
  | query (mac : List Char)
  /-- all that was read from the client that was asked for `mac`, and if that was up to its end -/
  | answer (mac out : List Char) (eof : Bool)
  | reauth
deriving DecidableEq, Repr

/-- `struct rvlan_dev`; the log has the newest entry first. -/
structure RvlanDev where
  portnr : Nat
  upNow : Bool
  peerMac : List Char
  pollFd : Int
  pid : Nat
  fsmState : FsmState
  dotconfigVlan : Int
  chosenVlan : Int
  radbuffer : List Char
  radbufferSize : Nat
  /-- the address in the query of the running client -/
  asked : List Char
  log : List Obs

structure Config where
  authVlan : Int
  noauthVlan : Int
  obeyDotconfig : Bool
  dryrun : Bool
  /-- `macs` -/
  localMacs : List (List (BitVec 8))

/-- The devices' descriptors that are open, and the children that are not reaped. -/
structure World (n : Nat) where
  fds : Int → Option (Fin n)
  children : Nat → Option (Fin n)
  exited : Nat → Bool

variable {n : Nat}

def World.empty : World n := ⟨fun _ => none, fun _ => none, fun _ => false⟩

def World.opened (w : World n) (i : Fin n) (fd : Int) : World n :=
  { w with fds := Function.update w.fds fd (some i) }

def World.close (w : World n) (fd : Int) : World n :=
  { w with fds := Function.update w.fds fd none }

def World.forked (w : World n) (i : Fin n) (pid : Nat) : World n :=
  { w with
    children := Function.update w.children pid (some i)
    exited := Function.update w.exited pid false }

def World.reap (w : World n) (pid : Nat) : World n :=
  { w with children := Function.update w.children pid none }

/-! ### System calls -/

inductive ForkResult
  /-- the first `pipe` fails: what is in `pipe0` was never set -/
  | pipe0Failed (junk0 junk1 : Int)
  | pipe1Failed
  | forkFailed (out0 in0 out1 in1 : Int)
  | forked (out0 in0 out1 in1 : Int) (pid : Nat)

/-- The results of the calls in one run of a machine. -/
structure FsmEnv where
  /-- `system(cmdstr) == 0` -/
  cmdOk : Bool
  /-- the sniffing socket; none if it cannot be opened or set up -/
  sock : Option Int
  /-- `FD_ISSET(dev->poll_fd, rdset)` -/
  readable : Bool
  recv : Option (List (BitVec 8))
  fork : ForkResult
  /-- what the client's pipe has: `[]` at its end, none for an error -/
  data : Option (List Char)
  /-- the status that `waitpid` stores -/
  status : Nat

def wexitstatus (status : Nat) : Nat := status / 256 % 256

/-! ### The machine -/

def rvlanChangeVlan (cfg : Config) (env : FsmEnv) (d : RvlanDev) : Bool × RvlanDev :=
  let ok := cfg.dryrun || env.cmdOk
  (ok, { d with log := .change d.chosenVlan ok :: d.log })

/-- RVLAN_JUSTUP -/
def justup (cfg : Config) (i : Fin n) (env : FsmEnv) (d : RvlanDev) (w : World n) :
    RvlanDev × World n :=
  -- errors of the command are ignored
  let (_, d) := rvlanChangeVlan cfg env { d with chosenVlan := cfg.authVlan }
  match env.sock with
  | none => (d, w)
  | some sock => ({ d with pollFd := sock, fsmState := .sniff }, w.opened i sock)

/-- RVLAN_SNIFF, up to where it falls through to RVLAN_RADCLIENT. -/
def sniff (cfg : Config) (env : FsmEnv) (d : RvlanDev) (w : World n) :
    Option (RvlanDev × World n) :=
  if !env.readable then none
  else match env.recv with
    | none => none
    | some frame =>
      let source := (frame.drop 6).take 6
      if frame.length < 14 then none
      else if source ∈ cfg.localMacs then none
      else some ({ d with
        peerMac := hexText source
        pollFd := -1
        fsmState := .radclient
        log := .sniff (hexText source) :: d.log }, w.close d.pollFd)

/-- A frame was taken: its source is kept, and the socket is closed. -/
theorem sniff_some {cfg : Config} {env : FsmEnv} {d d' : RvlanDev} {w w' : World n}
    (found : sniff cfg env d w = some (d', w')) :
    ∃ source, d' = { d with
      peerMac := hexText source
      pollFd := -1
      fsmState := .radclient
      log := .sniff (hexText source) :: d.log } ∧ w' = w.close d.pollFd := by
  simp only [sniff] at found
  split at found
  · cases found
  split at found
  · cases found
  next frame _ =>
    split_ifs at found
    cases found
    exact ⟨_, rfl, rfl⟩

def userName : List Char :=
  ['U', 's', 'e', 'r', '-', 'N', 'a', 'm', 'e', ' ', '=', ' ', '"']

def userPassword : List Char :=
  ['"', '\n', 'U', 's', 'e', 'r', '-', 'P', 'a', 's', 's', 'w', 'o', 'r', 'd', ' ', '=', ' ', '"']

def nasPort : List Char :=
  ['"', '\n', 'N', 'A', 'S', '-', 'P', 'o', 'r', 't', ' ', '=', ' ']

def queryText (d : RvlanDev) : List Char :=
  userName ++ d.peerMac ++ userPassword ++ d.peerMac ++ nasPort ++
    Nat.toDigits 10 d.portnr ++ ['\n']

/-- RVLAN_RADCLIENT -/
def radclient (i : Fin n) (env : FsmEnv) (d : RvlanDev) (w : World n) : RvlanDev × World n :=
  match env.fork with
  | .pipe0Failed junk0 junk1 => (d, (w.close junk0).close junk1)
  -- the first pipe is closed again
  | .pipe1Failed => (d, w)
  | .forkFailed out0 in0 out1 in1 =>
    (d, (((w.opened i out0).opened i in0).opened i out1).opened i in1)
  | .forked out0 in0 out1 in1 pid =>
    let w := (((w.opened i out0).opened i in0).opened i out1).opened i in1
    let w := ((w.forked i pid).close out0).close in1
    ({ d with
      pid := pid
      radbuffer := queryText d
      pollFd := out1
      radbufferSize := 0
      fsmState := .auth
      asked := d.peerMac
      log := .query d.peerMac :: d.log }, w.close in0)

def framedUser : List Char :=
  ['F', 'r', 'a', 'm', 'e', 'd', '-', 'U', 's', 'e', 'r']

def tunnelGroupId : List Char :=
  ['T', 'u', 'n', 'n', 'e', 'l', '-', 'P', 'r', 'i', 'v', 'a', 't', 'e', '-', 'G', 'r', 'o', 'u',
   'p', '-', 'I', 'd']

/-- The name that its error messages start with. -/
def radclientName : List Char :=
  ['r', 'a', 'd', 'c', 'l', 'i', 'e', 'n', 't']

/-- From the quote after the attribute's name on. -/
def groupValue (buf : List Char) : Option (List Char) :=
  (strstr tunnelGroupId (cstr buf)).bind (strchr '"')

/-- `chosen_vlan` from the client's output. -/
def parseAnswer (cfg : Config) (dotconfigVlan : Int) (buf : List Char) : Int :=
  if (strstr framedUser (cstr buf)).isSome then
    match groupValue buf with
    | none => cfg.noauthVlan
    | some s =>
      if cfg.obeyDotconfig then dotconfigVlan else (scanInt s.tail).getD cfg.noauthVlan
  else cfg.noauthVlan

/-- `sizeof(dev->radbuffer) - 1` -/
def radbufferMax : Nat := 10240 - 1

/-- RVLAN_AUTH at the end of the output. -/
def authDone (cfg : Config) (env : FsmEnv) (eof : Bool) (d : RvlanDev) (w : World n) :
    RvlanDev × World n :=
  let w := (w.close d.pollFd).reap d.pid
  let d := { d with
    pollFd := -1
    pid := 0
    log := .answer d.asked (d.radbuffer.take d.radbufferSize) eof :: d.log }
  if wexitstatus env.status ≠ 0 ∧ radclientName.isPrefixOf (cstr d.radbuffer) then
    ({ d with fsmState := .radclient }, w)
  else
    ({ d with
      chosenVlan := parseAnswer cfg d.dotconfigVlan d.radbuffer
      fsmState := .config }, w)

/-- RVLAN_AUTH -/
def auth (cfg : Config) (env : FsmEnv) (d : RvlanDev) (w : World n) : RvlanDev × World n :=
  if !env.readable then (d, w)
  else match env.data with
    | none => ({ d with pollFd := -1, fsmState := .godown }, w.close d.pollFd)
    | some data =>
      let got := data.take (radbufferMax - d.radbufferSize)
      if got ≠ [] then
        ({ d with
          radbuffer := d.radbuffer.take d.radbufferSize ++ got
          radbufferSize := d.radbufferSize + got.length }, w)
      else authDone cfg env (data = []) d w

/-- RVLAN_CONFIG -/
def config (cfg : Config) (env : FsmEnv) (d : RvlanDev) : RvlanDev :=
  let (ok, d) := rvlanChangeVlan cfg env d
  if ok then { d with fsmState := .configured } else d

/-- RVLAN_WAIT -/
def wait (d : RvlanDev) (w : World n) : RvlanDev × World n :=
  if (w.children d.pid).isSome ∧ w.exited d.pid then
    ({ d with pid := 0, fsmState := .down }, w.reap d.pid)
  else (d, w)

/-- RVLAN_GODOWN -/
def godown (cfg : Config) (env : FsmEnv) (d : RvlanDev) (w : World n) : RvlanDev × World n :=
  let w := if d.pollFd ≥ 0 then w.close d.pollFd else w
  let (ok, d) := rvlanChangeVlan cfg env
    { d with pollFd := -1, peerMac := [], chosenVlan := cfg.authVlan }
  if !ok then (d, w)
  else if d.pid = 0 then ({ d with fsmState := .down }, w)
  else wait { d with fsmState := .wait } w

/-- Up and down changes are processed first. -/
def upDown (d : RvlanDev) : RvlanDev :=
  let d := { d with log := .link d.upNow :: d.log }
  if !d.upNow ∧ d.fsmState ≠ .down then { d with fsmState := .godown }
  else if d.upNow ∧ d.fsmState = .down then { d with fsmState := .justup }
  else d

def rvlanFsm (cfg : Config) (i : Fin n) (env : FsmEnv) (d : RvlanDev) (w : World n) :
    RvlanDev × World n :=
  let d := upDown d
  match d.fsmState with
  | .down | .configured => (d, w)
  | .justup => justup cfg i env d w
  | .sniff =>
    match sniff cfg env d w with
    | none => (d, w)
    | some (d, w) => radclient i env d w
  | .radclient => radclient i env d w
  | .auth => auth cfg env d w
  | .config => (config cfg env d, w)
  | .godown => godown cfg env d w
  | .wait => wait d w

/-! ### The program -/

structure System (n : Nat) where
  devs : Fin n → RvlanDev
  world : World n

/-- What the program knows of a port when the main loop starts. -/
structure Port where
  portnr : Nat
  dotconfigVlan : Int
  up : Bool

def Port.dev (p : Port) : RvlanDev where
  portnr := p.portnr
  upNow := p.up
  peerMac := []
  pollFd := -1
  pid := 0
  fsmState := if p.up then .justup else .godown
  dotconfigVlan := p.dotconfigVlan
  chosenVlan := 0
  radbuffer := []
  radbufferSize := 0
  asked := []
  log := []

def System.init (ports : Fin n → Port) : System n := ⟨fun i => (ports i).dev, .empty⟩

inductive Event (n : Nat)
  /-- `rvlan_process_netlink` with the messages of one buffer -/
  | netlink (msgs : List (Fin n × Bool))
  | fsm (i : Fin n) (env : FsmEnv)
  /-- SIGUSR2 -/
  | reauth
  /-- a child ends, by itself or killed -/
  | exit (pid : Nat)

def System.setDev (s : System n) (i : Fin n) (d : RvlanDev) : System n :=
  { s with devs := Function.update s.devs i d }

def rvlanProcessNetlink (s : System n) (msgs : List (Fin n × Bool)) : System n :=
  msgs.foldl (fun s msg => s.setDev msg.1 { s.devs msg.1 with upNow := msg.2 }) s

def rvlanReauth (s : System n) : System n :=
  { s with devs := fun i =>
      { s.devs i with fsmState := .justup, log := .reauth :: (s.devs i).log } }

def System.step (cfg : Config) (s : System n) : Event n → System n
  | .netlink msgs => rvlanProcessNetlink s msgs
  | .fsm i env =>
    let (d, w) := rvlanFsm cfg i env (s.devs i) s.world
    ⟨Function.update s.devs i d, w⟩
  | .reauth => rvlanReauth s
  | .exit pid =>
    { s with world := { s.world with exited := Function.update s.world.exited pid true } }

end WrSwitch.RadiusVlan
