import KeyLease.Config.Basic
import KeyLease.Lifecycle.Status

set_option autoImplicit false

/-!
# Stores and scripts

A store keeps leases, each a key with the instant at which it expires. `LeaseStore` is what clients
may ask of any store: to connect, to disconnect, and to perform a `Call` on a lease. A call answers
yes or no, or why it was not carried out.

A client is a `Script`: it makes calls, goes on by their answers, and may wait. `Script.run` carries
a script out against a store. Everything above the stores is a script, so whatever holds for all
stores is said once.
-/

namespace KeyLease

/-- The two questions about a store's health. -/
inductive Probe
  | readiness
  | liveness
  deriving DecidableEq, Repr

/-- One operation on a store. -/
inductive Call
  /-- Creates the lease of a key unless a live one is there: has it been created? -/
  | tryAcquire (key : String) (ttl : Duration)
  /-- Removes the lease of a key: was a live one there? -/
  | release (key : String)
  /-- Is a live lease there? A store that cannot tell answers no. -/
  | exists (key : String)
  /-- Is the store healthy? The answer is yes or a failure. -/
  | check (probe : Probe)
  deriving DecidableEq, Repr

/-- The answer to a call. -/
abbrev Answer := Except Failure Bool

/-- What a state must offer to be a store. -/
class LeaseStore (σ : Type) where
  /-- The name of the backend. -/
  backend : σ → String
  /-- Opens a session. -/
  connect : σ → Except Failure Unit × σ
  /-- Closes the session. -/
  disconnect : σ → Except Failure Unit × σ
  /-- Carries out one call. -/
  perform : Call → σ → Answer × σ
  /-- Lets time pass. -/
  pass : Duration → σ → σ

/-- A client's conversation with a store, which ends with a value. -/
inductive Script (α : Type) : Type
  /-- The end. -/
  | done (a : α)
  /-- A call, and how it goes on by the answer. -/
  | call (c : Call) (next : Answer → Script α)
  /-- A wait while a lock is held. -/
  | hold (d : Duration) (next : Script α)

namespace Script

/-- One script after the other. -/
def bind {α β : Type} (s : Script α) (f : α → Script β) : Script β :=
  match s with
  | .done a => f a
  | .call c next => .call c fun answer => (next answer).bind f
  | .hold d next => .hold d (next.bind f)

instance : Monad Script where
  pure := .done
  bind := bind

/-- A single call. -/
def ask (c : Call) : Script Answer := .call c .done

/-- Carries a script out: the value at its end and the store after it. -/
def run {σ α : Type} [LeaseStore σ] (s : Script α) (store : σ) : α × σ :=
  match s with
  | .done a => (a, store)
  | .call c next =>
      let (answer, store) := LeaseStore.perform c store
      (next answer).run store
  | .hold d next => next.run (LeaseStore.pass d store)

/-! ## Laws -/

theorem bind_done {α : Type} (s : Script α) : s.bind .done = s := by
  induction s with
  | done a => rfl
  | call c next ih => exact congrArg (Script.call c) (funext ih)
  | hold d next ih => exact congrArg (Script.hold d) ih

theorem bind_assoc {α β γ : Type} (s : Script α) (f : α → Script β) (g : β → Script γ) :
    (s.bind f).bind g = s.bind fun a => (f a).bind g := by
  induction s with
  | done a => rfl
  | call c next ih => exact congrArg (Script.call c) (funext ih)
  | hold d next ih => exact congrArg (Script.hold d) ih

instance : LawfulMonad Script :=
  LawfulMonad.mk' Script
    (fun s => bind_done s)
    (fun _ _ => rfl)
    (fun s f g => bind_assoc s f g)

/-- One script after the other runs on the store that the first one leaves. -/
theorem run_bind {σ α β : Type} [LeaseStore σ] (s : Script α) (f : α → Script β) (store : σ) :
    (s.bind f).run store = (f (s.run store).1).run (s.run store).2 := by
  induction s generalizing store with
  | done a => rfl
  | call c next ih => exact ih _ _
  | hold d next ih => exact ih _

end Script

/-- The answer of a health check as a result. -/
def Answer.toUnit (a : Answer) : Except Failure Unit := a.map fun _ => ()

/-- Asks one of the questions about a store's health. -/
def checkHealth (probe : Probe) : Script (Except Failure Unit) :=
  return (← Script.ask (.check probe)).toUnit

end KeyLease
