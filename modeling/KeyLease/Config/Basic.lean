import KeyLease.Failure
import KeyLease.Text.Split
import KeyLease.Text.Blank

set_option autoImplicit false

/-!
# Configurations

A configuration names a backend by URI and gives three durations. `Config.check` is the judgement
that every entry point shares: the scheme first, then the default time to live, the limit of one
backend command and the sweep interval.
-/

namespace KeyLease

/-- The limit of a health check where nothing else is said. -/
def defaultHealthTimeout : Duration := .ofSeconds 3

/-- The families of backends. -/
inductive BackendKind
  | memory
  | redis
  deriving DecidableEq, Repr

/-- What every store, lock manager and admission guard is built from. -/
structure Config where
  /-- The backend, as a URI. -/
  uri : String
  /-- The time to live where a caller gives none. -/
  defaultTtl : Duration
  /-- The limit of one backend command or health check. -/
  opTimeout : Duration := defaultHealthTimeout
  /-- How often a memory store drops expired leases by itself; never if unset. -/
  sweepInterval : Option Duration := none
  deriving DecidableEq, Repr

/-- Refuses a time to live of no length and one above `maxTtl`. -/
def ensureTtl (ttl : Duration) : Except Failure Unit :=
  if ttl = .zero then .error (.configInvalid .zeroTtl)
  else if maxTtl < ttl then .error (.configInvalid (.ttlTooLong ttl))
  else .ok ()

namespace Config

/-- The part of the URI before `://`. -/
def scheme (c : Config) : Except Failure String :=
  if Text.isBlank c.uri then .error (.configInvalid .emptyUri)
  else
    match Text.splitFirst [':', '/', '/'] c.uri.toList with
    | some (name, _) =>
        if name.isEmpty then .error (.configInvalid (.missingScheme c.uri))
        else .ok (String.ofList name)
    | none => .error (.configInvalid (.missingScheme c.uri))

/-- The family of backends that a scheme selects. -/
def kindOfScheme (scheme : String) : Except Failure BackendKind :=
  if scheme = "memory" then .ok .memory
  else if scheme = "redis" ∨ scheme = "rediss" then .ok .redis
  else .error (.configInvalid (.unsupportedScheme scheme))

/-- The family of backends that the URI selects. -/
def backendKind (c : Config) : Except Failure BackendKind :=
  match c.scheme with
  | .ok scheme => kindOfScheme scheme
  | .error e => .error e

/-- The durations are within their bounds; the first that is not is named. -/
def checkDurations (c : Config) : Except Failure Unit :=
  if c.defaultTtl = .zero ∨ maxTtl < c.defaultTtl then
    .error (.configInvalid (.defaultTtl c.defaultTtl))
  else if c.opTimeout = .zero then .error (.configInvalid .zeroOpTimeout)
  else if c.sweepInterval = some .zero then .error (.configInvalid .zeroSweepInterval)
  else .ok ()

/-- Judges a configuration before anything is built from it. -/
def check (c : Config) : Except Failure Unit :=
  match c.backendKind with
  | .ok _ => c.checkDurations
  | .error e => .error e

end Config

end KeyLease
