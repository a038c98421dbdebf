import KeyLease.Text.Split

set_option autoImplicit false

/-!
# The endpoint of a store

What a store shows of the URI it was given: the scheme, and what follows the last `@` after it. User
names and passwords stand before that `@`, so none of them is shown. A text without a scheme is
shown as it is, and so is one without an `@`.
-/

namespace KeyLease.Redis

/-- The marks between a scheme and the rest of a URI. -/
def schemeMark : List Char := [':', '/', '/']

/-- A URI without its user information, as characters. -/
def redactChars (uri : List Char) : List Char :=
  match Text.splitFirst schemeMark uri with
  | none => uri
  | some (scheme, rest) =>
      match Text.splitLast '@' rest with
      | none => uri
      | some (_, host) => scheme ++ schemeMark ++ host

/-- A URI without its user information. -/
def redact (uri : String) : String := String.ofList (redactChars uri.toList)

end KeyLease.Redis
