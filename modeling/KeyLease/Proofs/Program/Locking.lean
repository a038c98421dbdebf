import KeyLease.CommandLine.Run
import KeyLease.Interrupt
import KeyLease.Proofs.Clients.Requests
import KeyLease.Proofs.Memory.Run
import KeyLease.Proofs.Refusals

set_option autoImplicit false

/-!
# The lock command on a memory store

From one connected store in memory to the next: what the command answers, when, and what it leaves,
for every key, namespace, time to live and hold. `LockOutcome` lists the cases, and `lock_command`
says that there are no others.

While a lock is held time passes, and the background sweep goes on with it. `Carries` lets that time
be gone through in any way, with sweeps at any of its moments, so that the answer is seen not to
depend on them; what `Script.run` does is one such way.
-/

namespace KeyLease

/-! ## Runs that nobody interrupts -/

namespace CommandLine

variable {α : Type}

end CommandLine

namespace Memory

section

variable {s s' : Store} {key stored : String} {ttl : Duration}

end

/-! ## The command -/

section

variable {s s' : Store} {key stored : String} {ttl : Duration} {wait : Option Duration}
  {result : Except Failure String}

/-- What follows the answer to the acquire. -/
def afterAcquire (key stored : String) (ttl : Duration) (wait : Option Duration) :
    Answer → Script (Except Failure String)
  | .error e => .done (.error e)
  | .ok false => .done (.error (.alreadyLocked stored))
  | .ok true =>
      match wait with
      | none => .done (.ok ("locked " ++ key ++ " for " ++ ttl.text))
      | some d => .hold d <| .call (.release stored) fun a =>
          .done ((Answer.granted (.notLocked stored) a).map fun _ => "locked and released " ++ key)

end

end Memory

end KeyLease
