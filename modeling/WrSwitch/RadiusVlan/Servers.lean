import WrSwitch.Machine.Recency
import WrSwitch.Machine.Run

/-!
# The radius servers

The list of servers that radiusvlan rotates over: a server that fails is stamped with a number
that counts the failures, and the next query goes to the one with the smallest stamp.
-/
namespace WrSwitch.RadiusVlan

open Machine

/-! ### The list -/

structure RvlanRadiusServer where
  addr : List Char
  /-- an unsigned long of the switch's processor -/
  lastFailure : BitVec 32
deriving DecidableEq, Repr

/-- A server whose memory was just cleared. -/
def RvlanRadiusServer.fresh (addr : List Char) : RvlanRadiusServer := ⟨addr, 0⟩

/-- The loop of `rvlan_server_get`, from position `i` of the list on. -/
def bestServer (best : Nat × RvlanRadiusServer) (i : Nat) :
    List RvlanRadiusServer → Nat × RvlanRadiusServer
  | [] => best
  | s :: servers =>
    bestServer (if s.lastFailure < best.2.lastFailure then (i, s) else best) (i + 1) servers

/-- The position of the best server; none if there are no servers. -/
def rvlanServerGet (servers : List RvlanRadiusServer) : Option Nat :=
  match servers with
  | [] => none
  | first :: _ => some (bestServer (0, first) 0 servers).1

/-- The servers, the number of the last failure and `dev->server` of each device. -/
structure Servers (n : Nat) where
  servers : List RvlanRadiusServer
  rvlanServerFailNr : BitVec 32
  server : Fin n → Option Nat

variable {n : Nat}

def rvlanServerFailed (s : Servers n) (dev : Fin n) : Servers n :=
  match s.server dev with
  | none => s
  | some p =>
    let nr := s.rvlanServerFailNr + 1
    { s with
      rvlanServerFailNr := nr
      servers := s.servers.modify p fun server => { server with lastFailure := nr } }

/-! ### Histories -/

inductive ServerCall (n : Nat)
  /-- `dev->server = rvlan_server_get()` -/
  | get (dev : Fin n)
  | failed (dev : Fin n)
deriving DecidableEq

def Servers.call (s : Servers n) : ServerCall n → Servers n
  | .get dev => { s with server := Function.update s.server dev (rvlanServerGet s.servers) }
  | .failed dev => rvlanServerFailed s dev

/-- No query was made and no server failed. -/
def Servers.init (addrs : List (List Char)) : Servers n :=
  ⟨addrs.map .fresh, 0, fun _ => none⟩

/-- The server whose failure a call reports. -/
def Servers.reports (s : Servers n) : ServerCall n → List Nat
  | .get _ => []
  | .failed dev => (s.server dev).toList

/-- The servers that failed in a history, in that order. -/
def Servers.failures (s : Servers n) : List (ServerCall n) → List Nat
  | [] => []
  | c :: history => s.reports c ++ (s.call c).failures history

/-- The first position with the smallest stamp. -/
structure IsBest (servers : List RvlanRadiusServer) (best : Nat × RvlanRadiusServer) : Prop where
  at_pos : servers[best.1]? = some best.2
  least : ∀ (q : Nat) (s : RvlanRadiusServer), servers[q]? = some s →
    best.2.lastFailure ≤ s.lastFailure
  first : ∀ (q : Nat) (s : RvlanRadiusServer), servers[q]? = some s →
    s.lastFailure = best.2.lastFailure → best.1 ≤ q

/-- The best server, after one server more. -/
theorem IsBest.next {seen : List RvlanRadiusServer} {best : Nat × RvlanRadiusServer}
    (holds : IsBest seen best) (s : RvlanRadiusServer) :
    IsBest (seen ++ [s])
      (if s.lastFailure < best.2.lastFailure then (seen.length, s) else best) := by
  have inside := (List.getElem?_eq_some_iff.mp holds.at_pos).1
  -- a position found is an old one or the last
  have old_or_new : ∀ q t, (seen ++ [s])[q]? = some t → seen[q]? = some t ∨
      q = seen.length ∧ t = s := by
    intro q t found
    rw [List.getElem?_append] at found
    split at found
    next => exact Or.inl found
    next outside =>
      rw [List.getElem?_singleton] at found
      split at found
      next at_end =>
        rw [Option.some.injEq] at found
        exact Or.inr ⟨by omega, found.symm⟩
      next => cases found
  -- the new server takes over only with an earlier failure
  by_cases smaller : s.lastFailure < best.2.lastFailure
  · rw [if_pos smaller]
    constructor
    · exact List.getElem?_concat_length
    · intro q t found
      rcases old_or_new q t found with old | ⟨-, rfl⟩
      · have := holds.least q t old
        bv_omega
      · exact BitVec.le_refl _
    · intro q t found same
      rcases old_or_new q t found with old | ⟨rfl, -⟩
      · exact (BitVec.not_lt.mpr (same ▸ holds.least q t old) smaller).elim
      · exact Nat.le_refl _
  · rw [if_neg smaller]
    constructor
    · rw [List.getElem?_append_left inside]
      exact holds.at_pos
    · intro q t found
      rcases old_or_new q t found with old | ⟨-, rfl⟩
      · exact holds.least q t old
      · exact BitVec.not_lt.mp smaller
    · intro q t found same
      rcases old_or_new q t found with old | ⟨rfl, -⟩
      · exact holds.first q t old same
      · exact Nat.le_of_lt inside

private theorem bestServer_isBest (seen servers : List RvlanRadiusServer)
    (best : Nat × RvlanRadiusServer) (holds : IsBest seen best) :
    IsBest (seen ++ servers) (bestServer best seen.length servers) := by
  induction servers generalizing seen best with
  | nil => rwa [List.append_nil]
  | cons s servers ih =>
    have done := ih (seen ++ [s]) _ (holds.next s)
    rwa [List.length_append, List.length_singleton, List.append_assoc,
      List.singleton_append] at done

private theorem rvlanServerGet_isBest (servers : List RvlanRadiusServer) (p : Nat)
    (chosen : rvlanServerGet servers = some p) : ∃ s, IsBest servers (p, s) := by
  cases servers with
  | nil => cases chosen
  | cons first rest =>
    have alone : IsBest [first] (0, first) := by
      constructor
      · rfl
      · intro q s found
        rw [List.getElem?_singleton] at found
        split at found <;> cases found
        exact BitVec.le_refl _
      · exact fun q _ _ _ => Nat.zero_le q
    have best := bestServer_isBest [first] rest (0, first) alone
    have stays : bestServer (0, first) 0 (first :: rest) = bestServer (0, first) 1 rest := by
      rw [bestServer, if_neg (BitVec.lt_irrefl _)]
    rw [rvlanServerGet, Option.some.injEq, stays] at chosen
    subst chosen
    exact ⟨_, best⟩

/-! ### The stamps -/

/-- The stamps are the numbers of the last failures. -/
structure Stamped (count : Nat) (s : Servers n) (failures : List Nat) : Prop where
  length : s.servers.length = count
  stamp : ∀ (p : Nat) (server : RvlanRadiusServer), s.servers[p]? = some server →
    server.lastFailure.toNat = lastSeen p failures
  counter : s.rvlanServerFailNr.toNat = failures.length
  device : ∀ dev p, s.server dev = some p → p < count

/-- No server has a stamp at the start. -/
theorem Stamped.init (addrs : List (List Char)) :
    Stamped addrs.length (Servers.init addrs : Servers n) [] where
  length := List.length_map _
  stamp := by
    intro p server found
    obtain ⟨addr, -, rfl⟩ := List.mem_map.mp (List.mem_of_getElem? found)
    rfl
  counter := rfl
  device _ _ known := by cases known

private theorem rvlanServerGet_lt {servers : List RvlanRadiusServer} {p : Nat}
    (chosen : rvlanServerGet servers = some p) : p < servers.length := by
  obtain ⟨s, best⟩ := rvlanServerGet_isBest servers p chosen
  exact (List.getElem?_eq_some_iff.mp best.at_pos).1

/-- A call keeps the stamps as long as the counter does not wrap. -/
theorem Stamped.call {count : Nat} {s : Servers n} {failures : List Nat}
    (stamped : Stamped count s failures) (c : ServerCall n)
    (few : (failures ++ s.reports c).length < 2 ^ 32) :
    Stamped count (s.call c) (failures ++ s.reports c) := by
  -- a choice stamps nothing, a failure stamps the server in use
  cases c with
  | get dev =>
    rw [show s.reports (.get dev) = [] from rfl, List.append_nil]
    refine ⟨stamped.length, stamped.stamp, stamped.counter, ?_⟩
    intro dev' p known
    change Function.update s.server dev (rvlanServerGet s.servers) dev' = some p at known
    rw [Function.update_apply] at known
    split at known
    next => exact stamped.length ▸ rvlanServerGet_lt known
    next => exact stamped.device dev' p known
  | failed dev =>
    cases server : s.server dev with
    | none =>
      have same : s.call (.failed dev) = s := by simp only [Servers.call, rvlanServerFailed, server]
      have silent : s.reports (.failed dev) = [] := by simp only [Servers.reports, server, Option.toList]
      rw [same, silent, List.append_nil]
      exact stamped
    | some p =>
      have reported : s.reports (.failed dev) = [p] := by
        simp only [Servers.reports, server, Option.toList]
      rw [reported] at few ⊢
      -- below 2^32 reports the number does not wrap
      have counted : (s.rvlanServerFailNr + 1).toNat = failures.length + 1 := by
        rw [List.length_append, List.length_singleton, ← stamped.counter] at few
        rw [← stamped.counter]
        bv_omega
      have next : s.call (.failed dev) = { s with
          rvlanServerFailNr := s.rvlanServerFailNr + 1
          servers := s.servers.modify p fun server =>
            { server with lastFailure := s.rvlanServerFailNr + 1 } } := by
        simp only [Servers.call, rvlanServerFailed, server]
      rw [next]
      refine ⟨?_, ?_, ?_, stamped.device⟩
      · rw [List.length_modify]
        exact stamped.length
      · intro q t found
        rw [List.getElem?_modify] at found
        obtain ⟨old, at_q, rfl⟩ := Option.map_eq_some_iff.mp found
        rw [lastSeen_concat]
        by_cases same : q = p
        · rw [if_pos same, if_pos same.symm]
          exact counted
        · rw [if_neg same, if_neg (Ne.symm same)]
          exact stamped.stamp q old at_q
      · rw [counted, List.length_append, List.length_singleton]

/-- The stamps tell when each server failed last. -/
theorem Stamped.run {count : Nat} {s : Servers n} {failures : List Nat}
    (stamped : Stamped count s failures) (history : List (ServerCall n))
    (few : (failures ++ s.failures history).length < 2 ^ 32) :
    Stamped count (run Servers.call s history) (failures ++ s.failures history) := by
  induction history generalizing s failures with
  | nil =>
    rw [show s.failures [] = [] from rfl, List.append_nil]
    exact stamped
  | cons c history ih =>
    have split : failures ++ s.failures (c :: history) =
        failures ++ s.reports c ++ (s.call c).failures history := by
      rw [Servers.failures, List.append_assoc]
    rw [split] at few ⊢
    refine ih (stamped.call c ?_) few
    rw [List.length_append] at few
    omega

end WrSwitch.RadiusVlan
