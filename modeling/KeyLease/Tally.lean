import KeyLease.Key
import KeyLease.LeaseStore
import KeyLease.Leases

set_option autoImplicit false

/-!
# The counting store

A store for trying out what is built on stores: it counts the calls that reach it, remembers the
last time to live, and can be told to fail. It judges keys and the connection as other stores do,
but accepts any time to live. Entries never expire by themselves as long as nobody moves its clock.
-/

namespace KeyLease

/-- A counting store with its clock. -/
structure Tally where
  now : Nat := 0
  status : Status := .uninitialized
  leases : Leases := {}
  calls : Nat := 0
  failure : Option String := none
  lastTtl : Option Duration := none

namespace Tally

/-- Makes every later call fail. -/
def failWith (s : Tally) (message : String) : Tally := { s with failure := some message }

/-- What every call on a key passes: the key, the connection, the count, the failure. -/
def enter (s : Tally) (key : String) : Except Failure Unit × Tally :=
  match ensureKey key, s.status.ensureConnected with
  | .error e, _ => (.error e, s)
  | _, .error e => (.error e, s)
  | .ok (), .ok () =>
      let s := { s with calls := s.calls + 1 }
      match s.failure with
      | some message => (.error (.backendUnavailable (.stated message)), s)
      | none => (.ok (), s)

/-- Carries out one call. -/
def perform (c : Call) (s : Tally) : Answer × Tally :=
  match c with
  | .tryAcquire key ttl =>
      match s.enter key with
      | (.error e, s) => (.error e, s)
      | (.ok (), s) =>
          let (acquired, leases) := s.leases.acquire s.now key (s.now + ttl.nanos)
          (.ok acquired, { s with leases, lastTtl := some ttl })
  | .release key =>
      match s.enter key with
      | (.error e, s) => (.error e, s)
      | (.ok (), s) =>
          let (released, leases) := s.leases.release s.now key
          (.ok released, { s with leases })
  | .exists key =>
      match s.enter key with
      | (.error _, s) => (.ok false, s)
      | (.ok (), s) => (.ok (s.leases.isLive s.now key), s)
  | .check _ => ((s.status.health (.ok ())).map fun () => true, s)

/-- Opens a session. -/
def connect (s : Tally) : Except Failure Unit × Tally :=
  let (result, status) := s.status.connect (.ok ())
  (result, { s with status })

/-- Closes the session; the leases stay. -/
def disconnect (s : Tally) : Except Failure Unit × Tally :=
  let (result, status) := s.status.disconnect (.ok ())
  (result, { s with status })

end Tally

instance : LeaseStore Tally where
  backend _ := "counting"
  connect := Tally.connect
  disconnect := Tally.disconnect
  perform := Tally.perform
  pass _ s := s

end KeyLease
