import KeyLease.Key
import KeyLease.LeaseStore

set_option autoImplicit false

/-!
# Admission

An admission guard lets each raw key of its namespace pass once per window, a window being as long
as the guard's time to live. There is no way to give an admission back.
-/

namespace KeyLease

/-- What admits the keys of one namespace. -/
structure AdmissionGuard where
  ns : Namespace := .admissions
  ttl : Duration
  deriving DecidableEq, Repr

namespace AdmissionGuard

/-- Admits a raw key, unless its window is open. -/
def validate (g : AdmissionGuard) (rawKey : String) : Script (Except Failure Unit) :=
  match g.ns.key rawKey with
  | .error e => .done (.error e)
  | .ok key => do
      match ← Script.ask (.tryAcquire key g.ttl) with
      | .ok true => return .ok ()
      | .ok false => return .error (.conflict key)
      | .error e => return .error e

/-- Whether the window of a raw key is open, as far as the store can tell. -/
def isAdmitted (g : AdmissionGuard) (rawKey : String) : Script Bool :=
  match g.ns.key rawKey with
  | .error _ => .done false
  | .ok key => return (← Script.ask (.exists key)).toOption.getD false

end AdmissionGuard

end KeyLease
