import KeyLease.Failure

set_option autoImplicit false

/-!
# Keys and namespaces

A store knows keys as non-empty texts. Clients share a store by putting their raw keys into
namespaces: the stored key is the name of the namespace, a separator and the raw key.
-/

namespace KeyLease

/-- The separator between a namespace and a raw key. -/
def keySeparator : Char := ':'

/-- Refuses the empty key. -/
def ensureKey (key : String) : Except Failure Unit :=
  if key.isEmpty then .error .keyEmpty else .ok ()

/-- A family of keys. -/
structure Namespace where
  name : String
  deriving DecidableEq, Repr

namespace Namespace

/-- The namespace of locks that name none. -/
def locks : Namespace := ⟨"dlm"⟩

/-- The namespace of admission keys that name none. -/
def admissions : Namespace := ⟨"idempotency"⟩

/-- The stored form of a raw key: name, separator, raw key. The empty raw key has none. -/
def key (ns : Namespace) (raw : String) : Except Failure String :=
  if raw.isEmpty then .error .keyEmpty
  else .ok (ns.name ++ String.singleton keySeparator ++ raw)

end Namespace

end KeyLease
