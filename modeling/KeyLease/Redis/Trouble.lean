set_option autoImplicit false

/-!
# What can go wrong with one exchange

An exchange with a server fails when no connection comes about, when the server answers an error,
or when its answer is not of the kind that was asked for.
-/

namespace KeyLease.Redis

/-- What a client asks of a server, as its failures name it. -/
inductive Verb
  | connect
  | setNxPx
  | del
  | exists
  | ping
  | quit
  deriving DecidableEq, Repr

/-- The name of a verb. -/
def Verb.text : Verb → String
  | .connect => "connect"
  | .setNxPx => "SET NX PX"
  | .del => "DEL"
  | .exists => "EXISTS"
  | .ping => "PING"
  | .quit => "QUIT"

/-- Why an exchange gave no usable answer. -/
inductive Trouble
  | noRoute
  | refused
  | errorReply (text : String)
  | nilNumber
  | notInteger
  | nilString
  | reported (text : String)
  deriving DecidableEq, Repr

/-- The first word of a text. -/
def firstWord (text : String) : String := String.ofList (text.toList.takeWhile (· ≠ ' '))

/-- The family of an error reply, by its first word. -/
def errorFamily (text : String) : String :=
  let word := firstWord text
  if word = "WRONGTYPE" then "Invalid Argument"
  else if word = "NOAUTH" ∨ word = "WRONGPASS" then "Authentication Error"
  else "Unknown Error"

/-- How the operating system reports a connection that fails. -/
def systemError (code : Nat) (kind text : String) : String :=
  "IO Error: Os \x7b code: " ++ code.repr ++ ", kind: " ++ kind ++ ", message: \"" ++ text
    ++ "\" \x7d"

/-- What a failed exchange says. -/
def Trouble.message : Trouble → String
  | .noRoute => systemError 101 "NetworkUnreachable" "Network is unreachable"
  | .refused => systemError 111 "ConnectionRefused" "Connection refused"
  | .errorReply text => errorFamily text ++ ": " ++ text
  | .nilNumber => "Not Found: Cannot convert nil to number."
  | .notInteger => "Parse Error: Invalid integer string."
  | .nilString => "Parse Error: Could not convert to string."
  | .reported text => text

end KeyLease.Redis
