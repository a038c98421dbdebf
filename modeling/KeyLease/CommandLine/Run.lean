import KeyLease.CommandLine.Invocation
import KeyLease.Lock
import KeyLease.Admission

set_option autoImplicit false

/-!
# Carrying out a command

A command is a script: at most two calls, with a wait between them for a lock that is held for a
while. Its value is what it has to say, or why it failed.
-/

namespace KeyLease.CommandLine

/-- The namespace that an option names, or else the given one. -/
def namespaceOr (fallback : Namespace) (name : Option String) : Namespace :=
  (name.map Namespace.mk).getD fallback

/-- The time to live that an option gives, or else that of the configuration. -/
def ttlOr (config : Config) (ms : Option Nat) : Duration :=
  (ms.map Duration.ofMillis).getD config.defaultTtl

/-- Goes on after a success, and passes a failure on. -/
def andThen {α : Type} (first : Script (Except Failure Unit))
    (next : Script (Except Failure α)) : Script (Except Failure α) := do
  match ← first with
  | .ok () => next
  | .error e => return .error e

namespace Command

/-- The locker that a lock command works with. -/
def locker (config : Config) (key : String) (ttlMs : Option Nat) (ns : Option String) : Locker :=
  { ns := namespaceOr .locks ns, rawKey := key, ttl := ttlOr config ttlMs }

/-- A command as a script against a store of a backend. -/
def script (config : Config) (backend : String) : Command → Script (Except Failure String)
  | .lock key ttlMs holdMs ns =>
      let l := locker config key ttlMs ns
      andThen l.lock <|
        match holdMs with
        | none => .done (.ok ("locked " ++ key ++ " for " ++ l.ttl.text))
        | some ms =>
            .hold (.ofMillis ms) (andThen l.unlock (.done (.ok ("locked and released " ++ key))))
  | .unlock key ns =>
      andThen (locker config key none ns).unlock (.done (.ok ("unlocked " ++ key)))
  | .validate key ttlMs ns =>
      let g : AdmissionGuard := { ns := namespaceOr .admissions ns, ttl := ttlOr config ttlMs }
      andThen (g.validate key) (.done (.ok ("admitted " ++ key ++ " for " ++ g.ttl.text)))
  | .exists key ns =>
      match (Namespace.mk ns).key key with
      | .error e => .done (.error e)
      | .ok stored => do
          let held := (← Script.ask (.exists stored)).toOption.getD false
          return .ok (stored ++ if held then " exists" else " absent")
  | .health =>
      andThen (checkHealth .readiness) <|
        andThen (checkHealth .liveness) <| .done (.ok (backend ++ " backend healthy"))

end Command

end KeyLease.CommandLine
