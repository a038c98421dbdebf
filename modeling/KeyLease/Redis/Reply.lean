import KeyLease.Redis.Trouble
import KeyLease.Text.Digits
import KeyLease.Text.Split

set_option autoImplicit false

/-!
# Replies

What a server answers to one command, and how a client takes it. An error reply is a failure
whatever was asked. A failure is never taken for a no: only an absent value says that a key was not
set, and only a number says how many keys there were.
-/

namespace KeyLease.Redis

/-- The answer to one command. -/
inductive Reply
  | simple (text : String)
  | error (text : String)
  | integer (n : Int)
  | bulk (text : String)
  | nil
  deriving DecidableEq, Repr

namespace Reply

/-- Whether a key was set: it was unless the reply is absent. -/
def wasSet : Reply → Except Trouble Bool
  | .error text => .error (.errorReply text)
  | .nil => .ok false
  | _ => .ok true

/-- A text as a number of keys. -/
def countOfText (text : String) : Except Trouble Int :=
  match Text.int64? text.toList with
  | some n => .ok n
  | none => .error .notInteger

/-- A number of keys: a number, or a text that writes one. -/
def count : Reply → Except Trouble Int
  | .error text => .error (.errorReply text)
  | .nil => .error .nilNumber
  | .integer n => .ok n
  | .simple text => countOfText text
  | .bulk text => countOfText text

/-- Whether keys were there. -/
def anyKey (r : Reply) : Except Trouble Bool := r.count.map fun n => 0 < n

/-- A sign of life: any text or number. -/
def isAlive : Reply → Except Trouble Bool
  | .error text => .error (.errorReply text)
  | .nil => .error .nilString
  | _ => .ok true

/-! ## On the wire -/

/-- The text up to the first line end, and the text behind it. -/
def line? (cs : List Char) : Option (List Char × List Char) := Text.splitFirst ['\r', '\n'] cs

/-- The reply that a text on the wire begins with, if it holds a whole one. -/
def ofWire? (wire : String) : Option Reply :=
  match wire.toList with
  | [] => none
  | mark :: rest =>
      match line? rest with
      | none => none
      | some (head, body) =>
          let text := String.ofList head
          if mark = '+' then some (.simple text)
          else if mark = '-' then some (.error text)
          else if mark = ':' then (Text.int64? head).map .integer
          else if mark = '_' then some .nil
          else if mark = '*' then (if text = "-1" then some .nil else none)
          else if mark = '$' then
            match Text.int64? head with
            | none => none
            | some n =>
                if n < 0 then some .nil
                else if body.length < n.toNat + 2 then none
                else some (.bulk (String.ofList (body.take n.toNat)))
          else none

end Reply

end KeyLease.Redis
