import KeyLease.LeaseStore

set_option autoImplicit false

/-!
# Interrupted scripts

An interrupt arrives while a script waits: for the answer to a call, or while a lock is held. In the
first case the script is stopped there, though the store has carried the call out. In the second
the wait is cut short and the script goes on; whoever has listened once goes on listening, so
later interrupts change nothing.
-/

namespace KeyLease

/-- When an interrupt arrives. -/
inductive Interrupt
  /-- Not at all. -/
  | never
  /-- While a call is unanswered, counted from zero. The store has carried the call out. -/
  | inCall (index : Nat)
  /-- So long after a lock has begun to be held. -/
  | inHold (after : Duration)
  deriving DecidableEq, Repr

/-- What an interrupt leaves of a script. -/
inductive Interrupted (α : Type)
  /-- The script has come to its end. -/
  | ended (a : α)
  /-- The interrupt came while a call was unanswered. -/
  | stopped
  deriving DecidableEq, Repr

namespace Script

/-- Carries a script out up to the call in which an interrupt arrives. A wait is cut short by an
interrupt that arrives in it. -/
def runUntil {σ α : Type} [LeaseStore σ] (s : Script α) (i : Interrupt) (store : σ) :
    Interrupted α × σ :=
  match s with
  | .done a => (.ended a, store)
  | .call c next =>
      let (answer, store) := LeaseStore.perform c store
      match i with
      | .inCall 0 => (.stopped, store)
      | .inCall (n + 1) => (next answer).runUntil (.inCall n) store
      | _ => (next answer).runUntil i store
  | .hold d next =>
      match i with
      | .inHold after =>
          next.runUntil .never (LeaseStore.pass (if after < d then after else d) store)
      | .inCall _ => next.runUntil .never (LeaseStore.pass d store)
      | .never => next.runUntil .never (LeaseStore.pass d store)

end Script

end KeyLease
