import KeyLease.Memory.Store
import KeyLease.Redis.Store
import KeyLease.Tally

set_option autoImplicit false

/-!
# Backends

Any of the stores, chosen at run time. `Backend.ofConfig` opens the one that the scheme of a
configuration's URI selects; it is not connected yet.
-/

namespace KeyLease

/-- A store of any kind. -/
inductive Backend
  | memory (s : Memory.Store)
  | redis (s : Redis.Store)
  | counting (s : Tally)

namespace Backend

/-- The store that a configuration selects; the number of links matters to Redis only. -/
def ofConfig (c : Config) (poolSize : Nat) (network : Redis.Network) : Except Failure Backend :=
  match c.backendKind with
  | .error e => .error e
  | .ok .memory => (Memory.Store.ofConfig c).map .memory
  | .ok .redis => (Redis.Store.ofConfig c network).map fun s => .redis (s.withPoolSize poolSize)

/-- The name of the backend. -/
def name : Backend → String
  | .memory s => LeaseStore.backend s
  | .redis s => LeaseStore.backend s
  | .counting s => LeaseStore.backend s

/-- An operation that every store has, on whichever store this is. -/
def lift {β : Type} (f : {σ : Type} → [LeaseStore σ] → σ → β × σ) : Backend → β × Backend
  | .memory s => let (b, s) := f s; (b, .memory s)
  | .redis s => let (b, s) := f s; (b, .redis s)
  | .counting s => let (b, s) := f s; (b, .counting s)

end Backend

instance : LeaseStore Backend where
  backend := Backend.name
  connect := Backend.lift LeaseStore.connect
  disconnect := Backend.lift LeaseStore.disconnect
  perform c := Backend.lift (LeaseStore.perform c)
  pass d b := (b.lift fun s => ((), LeaseStore.pass d s)).2

end KeyLease
