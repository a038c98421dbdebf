import KeyLease.Leases
import KeyLease.Redis.Reply

set_option autoImplicit false

/-!
# The keys of a server

What a server keeps: keys with the millisecond at which each of them expires, on a clock of its own.
A command is carried out whole, on one state of the keys, and answered by one reply.
-/

namespace KeyLease.Redis

/-- One command to a server. -/
inductive Command
  /-- Sets a key that is not there, for a number of milliseconds. -/
  | setNxPx (key : String) (px : Nat)
  /-- Removes a key. -/
  | del (key : String)
  /-- Counts a key. -/
  | exists (key : String)
  /-- Asks for a sign of life. -/
  | ping
  /-- Signs on with a password, for a user if one is given. -/
  | auth (user : Option String) (password : String)
  /-- Turns to a database. -/
  | select (database : Nat)
  deriving DecidableEq, Repr

/-- The name of a command. -/
def Command.name : Command → String
  | .setNxPx _ _ => "SET"
  | .del _ => "DEL"
  | .exists _ => "EXISTS"
  | .ping => "PING"
  | .auth _ _ => "AUTH"
  | .select _ => "SELECT"

/-- The words of a command. The value of a key is the time of the request, which nothing reads back;
it is written as `<now>`. -/
def Command.words (c : Command) : List String :=
  c.name :: match c with
    | .setNxPx key px => [key, "<now>", "NX", "PX", px.repr]
    | .del key => [key]
    | .exists key => [key]
    | .ping => []
    | .auth user password => user.toList ++ [password]
    | .select database => [database.repr]

/-- The keys of a server with its clock in milliseconds. -/
structure Keyspace where
  now : Nat := 0
  leases : Leases := {}
  deriving DecidableEq, Repr

namespace Keyspace

/-- Whether a key is live. -/
def isLive (ks : Keyspace) (key : String) : Bool := ks.leases.isLive ks.now key

/-- The keys without one. -/
def drop (ks : Keyspace) (key : String) : Keyspace := { ks with leases := ks.leases.erase key }

/-- A key set for a number of milliseconds from now. -/
def put (ks : Keyspace) (key : String) (px : Nat) : Keyspace :=
  { ks with leases := ks.leases.insert key (ks.now + px) }

/-- The clock moves. -/
def advance (ks : Keyspace) (ms : Nat) : Keyspace := { ks with now := ks.now + ms }

/-- One for yes, zero for no. -/
def countReply (yes : Bool) : Reply := .integer (if yes then 1 else 0)

/-- A command carried out: the reply and the keys after it. -/
def execute (c : Command) (ks : Keyspace) : Reply × Keyspace :=
  match c with
  | .setNxPx key px => if ks.isLive key then (.nil, ks) else (.simple "OK", ks.put key px)
  | .del key => (countReply (ks.isLive key), ks.drop key)
  | .exists key => (countReply (ks.isLive key), ks)
  | .ping => (.simple "PONG", ks)
  | .auth _ _ => (.simple "OK", ks)
  | .select _ => (.simple "OK", ks)

/-- The live keys with the milliseconds that are left to them. -/
def remaining (ks : Keyspace) : List (String × Nat) :=
  (ks.leases.sweep ks.now).toList.map fun l => (l.1, l.2 - ks.now)

end Keyspace

end KeyLease.Redis
