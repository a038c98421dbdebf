import KeyLease.Failure

set_option autoImplicit false

/-!
# Connection status

A store is built before it is connected, and may be disconnected and connected again. The three
states and their two transitions form a sequential machine: `connect` on a connected store and
`disconnect` on any other are refused without running what opens or closes the session. A failed
opening leaves the status as it was; a closing leaves it `disconnected` even if it fails.
-/

namespace KeyLease

/-- Whether a store serves requests. -/
inductive Status
  | uninitialized
  | connected
  | disconnected
  deriving DecidableEq, Repr

namespace Status

/-- Refuses an operation unless connected. -/
def ensureConnected : Status → Except Failure Unit
  | .connected => .ok ()
  | _ => .error .notConnected

/-- Connects, where opening the session gives `opened`: the result and the status after it. -/
def connect (s : Status) (opened : Except Failure Unit) : Except Failure Unit × Status :=
  match s with
  | .connected => (.error .alreadyConnected, .connected)
  | _ =>
      match opened with
      | .ok () => (.ok (), .connected)
      | .error e => (.error e, s)

/-- Disconnects, where closing the session gives `closed`: the result and the status after it. -/
def disconnect (s : Status) (closed : Except Failure Unit) : Except Failure Unit × Status :=
  match s with
  | .connected => (closed, .disconnected)
  | _ => (.error .notConnected, s)

/-- The result of a health check, where the check of a connected store gives `checked`. A cleanly
disconnected store is healthy, so that a shutdown raises no alarm. -/
def health (s : Status) (checked : Except Failure Unit) : Except Failure Unit :=
  match s with
  | .disconnected => .ok ()
  | .uninitialized => .error .notConnected
  | .connected => checked

end Status

end KeyLease
