import KeyLease.Key
import KeyLease.LeaseStore

set_option autoImplicit false

/-!
# Locks

A lock manager hands out lockers, one per raw key of its namespace. A locker takes its lock for a
time to live and gives it back. Entries carry no owner: any locker of the same stored key can give
the lock back.
-/

namespace KeyLease

/-- The time to live where nothing else is said. -/
def defaultTtl : Duration := .ofSeconds 30

/-- The handle of one lock. -/
structure Locker where
  ns : Namespace
  rawKey : String
  ttl : Duration
  deriving DecidableEq, Repr

/-- The locks of one namespace. -/
structure LockManager where
  ns : Namespace := .locks
  defaultTtl : Duration
  deriving DecidableEq, Repr

/-- The handle of the lock of a raw key. -/
def LockManager.locker (m : LockManager) (rawKey : String) : Locker :=
  { ns := m.ns, rawKey, ttl := m.defaultTtl }

namespace Locker

/-- The same handle with another time to live. -/
def withTtl (l : Locker) (ttl : Duration) : Locker := { l with ttl }

/-- The stored key of the lock. -/
def storedKey (l : Locker) : Except Failure String := l.ns.key l.rawKey

/-- Takes the lock, unless someone holds it. -/
def lock (l : Locker) : Script (Except Failure Unit) :=
  match l.storedKey with
  | .error e => .done (.error e)
  | .ok key => do
      match ← Script.ask (.tryAcquire key l.ttl) with
      | .ok true => return .ok ()
      | .ok false => return .error (.alreadyLocked key)
      | .error e => return .error e

/-- Gives the lock back, if someone holds it. -/
def unlock (l : Locker) : Script (Except Failure Unit) :=
  match l.storedKey with
  | .error e => .done (.error e)
  | .ok key => do
      match ← Script.ask (.release key) with
      | .ok true => return .ok ()
      | .ok false => return .error (.notLocked key)
      | .error e => return .error e

/-- Whether someone holds the lock, as far as the store can tell. -/
def isLocked (l : Locker) : Script Bool :=
  match l.storedKey with
  | .error _ => .done false
  | .ok key => return (← Script.ask (.exists key)).toOption.getD false

/-- A locker as its fields, with the name of the backend that it works on. -/
def describe (backend : String) (l : Locker) : String :=
  "Locker \x7b backend: " ++ Text.quoted backend ++ ", namespace: " ++ Text.quoted l.ns.name
    ++ ", key: " ++ Text.quoted l.rawKey ++ ", ttl: " ++ l.ttl.text ++ " \x7d"

end Locker

end KeyLease
