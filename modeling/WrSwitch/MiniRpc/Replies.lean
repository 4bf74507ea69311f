import WrSwitch.MiniRpc.ExactlyOnce
import WrSwitch.MiniRpc.Socket

/-!
# Replies and requests

Packets carry no request numbers: a reply belongs to the call that receives it only if nothing
of an earlier call is under way when that call begins.
-/
namespace WrSwitch.MiniRpc

open Machine

/-- The freestanding server looks at `last_request_id`, so nothing is asked of its runs. -/
theorem along_fresh (steps : List MemStep) (s : MemState) :
    Along (Fresh .freestanding) (memStep .freestanding) s steps := by
  induction steps generalizing s with
  | nil => trivial
  | cons e steps ih => exact ⟨(fun hosted => by cases hosted), ih _⟩

/-- Over a socket and over shared memory, a call that begins with nothing of an earlier one
under way and returns 0 has stored the reply to its own request. A hosted server on shared
memory has to start only on requests that it has not picked up. -/
theorem replies_own {ι φ σ : Type} (pds : ι → MinipcPd φ)
    (call : MinipcPd φ → Mem → Mem → σ → Outcome σ) (link : List (MpcFlist ι)) (state : σ) :
    (∀ steps : List (SocketStep φ σ),
      ∀ r ∈ (run (socketStep pds call link) (socketStart state) steps).returns, r.quiet = true →
        SocketOwnReply (run (socketStep pds call link) (socketStart state) steps) r) ∧
    (∀ steps, ∀ r ∈ (run (memStep .freestanding) memStart steps).returns, r.quiet = true →
      OwnReply (run (memStep .freestanding) memStart steps) r) ∧
    ∀ steps, Along (Fresh .hosted) (memStep .hosted) memStart steps →
      ∀ r ∈ (run (memStep .hosted) memStart steps).returns, r.quiet = true →
        OwnReply (run (memStep .hosted) memStart steps) r :=
  ⟨socket_replies_own pds call link state,
    fun steps => mem_replies_own .freestanding steps (along_fresh steps memStart),
    mem_replies_own .hosted⟩

/-- A procedure without arguments that returns an integer. -/
def counterPd : MinipcPd Unit where
  f := ()
  name := .ofString "counter" (by decide)
  retval := minipcArgEncode .int 4
  args := [minipcArgEnd]

/-- It counts its calls. -/
def countCalls (_ : MinipcPd Unit) (_ _ : Mem) (calls : Nat) : Outcome Nat :=
  ⟨0, 0, storeBits (BitVec.ofNat 32 calls), calls + 1⟩

/-- A call that times out, and the next one, which is given the late reply. -/
def lateReply : List (SocketStep Unit Nat) :=
  [.call counterPd [], .serverReceive, .timeout, .serve [] [], .call counterPd [], .receive []]

/-- The second call returns 0 before the server has received its request. -/
theorem replies_late :
    ∃ r ∈ (run (socketStep (fun _ : Unit => counterPd) countCalls [⟨0, ()⟩]) (socketStart 0)
        lateReply).returns,
      ¬SocketOwnReply (run (socketStep (fun _ : Unit => counterPd) countCalls [⟨0, ()⟩])
        (socketStart 0) lateReply) r := by
  refine ⟨⟨2, false, .ok [0, 0, 0, 0]⟩, by decide, ?_⟩
  intro own
  obtain ⟨packet, x, request, member, received, _⟩ := own _ rfl
  -- the only execution received the first request
  have first : ∀ x ∈ (run (socketStep (fun _ : Unit => counterPd) countCalls [⟨0, ()⟩])
      (socketStart 0) lateReply).executions, (x.received.map Prod.fst).head? = some 1 := by
    decide
  have tags := first x member
  rw [received] at tags
  cases packet with
  | nil => cases tags
  | cons b packet => simp [tagged] at tags

end WrSwitch.MiniRpc
