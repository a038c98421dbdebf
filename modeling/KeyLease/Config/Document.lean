import KeyLease.Config.Basic
import KeyLease.Json.Skip

set_option autoImplicit false

/-!
# Configurations as JSON documents

A configuration is written as an object with the members `uri`, `default_ttl_ms`, `op_timeout_ms`
and, if the sweep interval is set, `sweep_interval_ms`; durations are whole milliseconds modulo
`2 ^ 64`. `Config.write` gives that text and `Config.read` reads one back.

The reader takes the members in any order, passes over members of other names, and takes the
limit of a command as `defaultHealthTimeout` and the sweep interval as unset where they are not
given. It also reads an array that holds the members in the order above, of which the last two may
be left out. It goes once through the text and answers the first fault it meets; a member that is
missing is noticed at the closing bracket.
-/

namespace KeyLease

namespace Json

/-! ## Writing -/

/-- A character inside a JSON string. -/
def escapedChar (c : Char) : List Char :=
  if c = '"' then ['\\', '"']
  else if c = '\\' then ['\\', '\\']
  else if c = '\x08' then ['\\', 'b']
  else if c = '\t' then ['\\', 't']
  else if c = '\n' then ['\\', 'n']
  else if c = '\x0c' then ['\\', 'f']
  else if c = '\r' then ['\\', 'r']
  else if c.toNat < 0x20 then
    ['\\', 'u', '0', '0'] ++ Nat.toDigits 16 (c.toNat / 16) ++ Nat.toDigits 16 (c.toNat % 16)
  else [c]

/-- A string as JSON. -/
def writeString (s : String) : List Char := '"' :: s.toList.flatMap escapedChar ++ ['"']

/-- A whole number as JSON. -/
def writeNatural (n : Nat) : List Char := Nat.toDigits 10 n

end Json

namespace Config

open Json

/-- The number of milliseconds that stands for a duration: the lowest 64 bits of it. -/
def storedMillis (d : Duration) : Nat := d.wholeMillis % 0x10000000000000000

/-- One member of an object. -/
def writeMember (name : String) (value : List Char) : List Char :=
  writeString name ++ ':' :: value

/-- The members of a configuration, in order. -/
def members (c : Config) : List (List Char) :=
  [writeMember "uri" (writeString c.uri),
   writeMember "default_ttl_ms" (writeNatural (storedMillis c.defaultTtl)),
   writeMember "op_timeout_ms" (writeNatural (storedMillis c.opTimeout))] ++
  match c.sweepInterval with
  | some d => [writeMember "sweep_interval_ms" (writeNatural (storedMillis d))]
  | none => []

/-- A configuration as an object without white space. -/
def writeChars (c : Config) : List Char :=
  '\x7b' :: [','].intercalate c.members ++ ['\x7d']

/-- A configuration as a JSON text. -/
def write (c : Config) : String := String.ofList c.writeChars

/-! ## Reading values -/

/-- What the value at this place is, for a reader that cannot use it. -/
def unwanted (expected : Expected) (cs : List Char) : Fault :=
  let wrong (found : Found) : Fault := .mismatch (.kind found expected)
  let number (negative : Bool) (cs : List Char) : Fault :=
    match numeral negative cs with
    | .error e => e
    | .ok (.natural n, _) => wrong (.integer n)
    | .ok (.negative n, _) => wrong (.integer (-(n : Int)))
    | .ok (.floating text, _) => wrong (.floating text)
  let named (letters : List Char) (found : Found) (cs : List Char) : Fault :=
    match word letters cs with
    | .error e => e
    | .ok _ => wrong found
  match cs with
  | [] => .truncated
  | 'n' :: rest => named ['u', 'l', 'l'] .null rest
  | 't' :: rest => named ['r', 'u', 'e'] (.boolean true) rest
  | 'f' :: rest => named ['a', 'l', 's', 'e'] (.boolean false) rest
  | '-' :: rest => number true rest
  | '"' :: rest =>
      match stringBody true rest with
      | .error e => e
      | .ok (s, _) => wrong (.string (String.ofList s))
  | '[' :: _ => wrong .sequence
  | '\x7b' :: _ => wrong .map
  | c :: rest => if (Text.digit? c).isSome then number false (c :: rest) else .malformed

/-- The string at this place. -/
def readString (cs : List Char) : Except Fault (String × List Char) :=
  match skipSpace cs with
  | '"' :: rest => (stringBody true rest).map fun (s, rest) => (String.ofList s, rest)
  | other => .error (unwanted .string other)

/-- A number as a reader of natural numbers takes it. -/
def asNatural : Numeral × List Char → Except Fault (Nat × List Char)
  | (.natural n, rest) => .ok (n, rest)
  | (.negative n, _) => .error (.mismatch (.value (.integer (-(n : Int))) .natural))
  | (.floating text, _) => .error (.mismatch (.kind (.floating text) .natural))

/-- The natural number at this place. -/
def readNatural (cs : List Char) : Except Fault (Nat × List Char) :=
  match skipSpace cs with
  | '-' :: rest => (numeral true rest).bind asNatural
  | c :: rest =>
      if (Text.digit? c).isSome then (numeral false (c :: rest)).bind asNatural
      else .error (unwanted .natural (c :: rest))
  | [] => .error .truncated

/-- The natural number or `null` at this place. -/
def readOptionalNatural (cs : List Char) : Except Fault (Option Nat × List Char) :=
  match skipSpace cs with
  | 'n' :: rest => (word ['u', 'l', 'l'] rest).map fun rest => (none, rest)
  | other => (readNatural other).map fun (n, rest) => (some n, rest)

/-! ## Reading objects -/

/-- The members of a configuration by name. -/
inductive Member
  | uri
  | defaultTtl
  | opTimeout
  | sweepInterval
  deriving DecidableEq, Repr

/-- The name of a member in a document. -/
def Member.name : Member → String
  | .uri => "uri"
  | .defaultTtl => "default_ttl_ms"
  | .opTimeout => "op_timeout_ms"
  | .sweepInterval => "sweep_interval_ms"

/-- The member that a name stands for; other names stand for none. -/
def Member.ofName? (name : String) : Option Member :=
  [Member.uri, .defaultTtl, .opTimeout, .sweepInterval].find? (·.name = name)

/-- The members read so far. -/
structure Draft where
  uri : Option String := none
  defaultTtl : Option Nat := none
  opTimeout : Option Nat := none
  sweepInterval : Option (Option Nat) := none
  deriving DecidableEq, Repr

/-- Whether a member has been read. -/
def Draft.has (d : Draft) : Member → Bool
  | .uri => d.uri.isSome
  | .defaultTtl => d.defaultTtl.isSome
  | .opTimeout => d.opTimeout.isSome
  | .sweepInterval => d.sweepInterval.isSome

/-- The draft with the value of one more member, which stands at this place. -/
def Draft.readMember (d : Draft) (m : Member) (cs : List Char) : Except Fault (Draft × List Char) :=
  match m with
  | .uri => (readString cs).map fun (s, rest) => ({ d with uri := some s }, rest)
  | .defaultTtl => (readNatural cs).map fun (n, rest) => ({ d with defaultTtl := some n }, rest)
  | .opTimeout => (readNatural cs).map fun (n, rest) => ({ d with opTimeout := some n }, rest)
  | .sweepInterval =>
      (readOptionalNatural cs).map fun (n, rest) => ({ d with sweepInterval := some n }, rest)

/-- A configuration from the members as numbers of milliseconds. -/
def ofMillis (uri : String) (defaultTtl : Nat) (opTimeout sweepInterval : Option Nat) : Config :=
  { uri
    defaultTtl := .ofMillis defaultTtl
    opTimeout := (opTimeout.map Duration.ofMillis).getD defaultHealthTimeout
    sweepInterval := sweepInterval.map .ofMillis }

/-- The configuration of a draft once all its members are read. -/
def Draft.finish (d : Draft) : Except Fault Config :=
  match d.uri, d.defaultTtl with
  | none, _ => .error (.mismatch (.missing Member.uri.name))
  | _, none => .error (.mismatch (.missing Member.defaultTtl.name))
  | some uri, some ttl => .ok (ofMillis uri ttl d.opTimeout (d.sweepInterval.getD none))

/-- The text behind a colon that must stand here. -/
def colon (cs : List Char) : Except Fault (List Char) :=
  match skipSpace cs with
  | [] => .error .truncated
  | ':' :: rest => .ok rest
  | _ => .error .malformed

/-- What stands at the place of a member: nothing more, with the text from the closing bracket, or a
name, with the text behind its opening quote. -/
inductive MemberPlace
  | closing (rest : List Char)
  | name (rest : List Char)

/-- Finds the next member of an object; `first` tells that none has been read. -/
def nextMember (first : Bool) (cs : List Char) : Except Fault MemberPlace :=
  match skipSpace cs with
  | [] => .error .truncated
  | '\x7d' :: rest => .ok (.closing rest)
  | '"' :: rest => if first then .ok (.name rest) else .error .malformed
  | ',' :: rest =>
      if first then .error .malformed
      else
        match skipSpace rest with
        | [] => .error .truncated
        | '"' :: rest => .ok (.name rest)
        | _ => .error .malformed
  | _ => .error .malformed

/-- Reads one member into a draft. The text begins behind the opening quote of its name. -/
def Draft.readNamed (d : Draft) (cs : List Char) : Except Fault (Draft × List Char) :=
  match stringBody true cs with
  | .error e => .error e
  | .ok (name, rest) =>
      match Member.ofName? (String.ofList name) with
      | some m =>
          if d.has m then .error (.mismatch (.duplicate m.name))
          else (colon rest).bind (d.readMember m)
      | none => ((colon rest).bind skipValue).map fun rest => (d, rest)

/-- Reads the members of an object up to its closing bracket; at most `fuel` of them. -/
def readMembers (first : Bool) (d : Draft) (cs : List Char) :
    Nat → Except Fault (Draft × List Char)
  | 0 => .error .truncated
  | fuel + 1 =>
      match nextMember first cs with
      | .error e => .error e
      | .ok (.closing rest) => .ok (d, rest)
      | .ok (.name rest) =>
          match d.readNamed rest with
          | .error e => .error e
          | .ok (d, rest) => readMembers false d rest fuel

/-- The configuration of an object and the text behind it. The text begins behind the opening
bracket. A member takes at least one character, so there are fewer than the text has. -/
def readObject (cs : List Char) : Except Fault (Config × List Char) :=
  match readMembers true {} cs (cs.length + 1) with
  | .error e => .error e
  | .ok (d, rest) => d.finish.map fun c => (c, rest)

/-! ## Reading arrays -/

/-- Finds the next element of an array: the text from it, or `none` at the closing bracket. -/
def nextElement (first : Bool) (cs : List Char) : Except Fault (Option (List Char)) :=
  match skipSpace cs with
  | [] => .error .truncated
  | ']' :: _ => .ok none
  | ',' :: rest =>
      if first then .ok (some (',' :: rest))
      else
        match skipSpace rest with
        | [] => .error .truncated
        | ']' :: _ => .error .malformed
        | found => .ok (some found)
  | found => if first then .ok (some found) else .error .malformed

/-- Reads an element that must be there; `index` is its place in the array. -/
def readElement {α : Type} (read : List Char → Except Fault (α × List Char)) (index : Nat)
    (cs : List Char) : Except Fault (α × List Char) :=
  match nextElement (index = 0) cs with
  | .error e => .error e
  | .ok none => .error (.mismatch (.tooShort index))
  | .ok (some found) => read found

/-- Reads an element that may be left out at the end of the array. -/
def readLastElement {α : Type} (read : List Char → Except Fault (α × List Char))
    (cs : List Char) : Except Fault (Option α × List Char) :=
  match nextElement false cs with
  | .error e => .error e
  | .ok none => .ok (none, cs)
  | .ok (some found) => (read found).map fun (a, rest) => (some a, rest)

/-- The text behind the closing bracket that must stand here. -/
def closeArray (cs : List Char) : Except Fault (List Char) :=
  match skipSpace cs with
  | [] => .error .truncated
  | ']' :: rest => .ok rest
  | _ => .error .malformed

/-- The configuration of an array and the text behind it. The text begins behind the opening
bracket. -/
def readArray (cs : List Char) : Except Fault (Config × List Char) := do
  let (uri, cs) ← readElement readString 0 cs
  let (ttl, cs) ← readElement readNatural 1 cs
  let (opTimeout, cs) ← readLastElement readNatural cs
  let (sweepInterval, cs) ← readLastElement readOptionalNatural cs
  let rest ← closeArray cs
  return (ofMillis uri ttl opTimeout (sweepInterval.getD none), rest)

/-! ## Reading documents -/

/-- The configuration that the characters of a document hold. -/
def readChars (cs : List Char) : Except Fault Config :=
  let found := match skipSpace cs with
    | '[' :: rest => readArray rest
    | '\x7b' :: rest => readObject rest
    | other => .error (unwanted .config other)
  match found with
  | .error e => .error e
  | .ok (c, rest) => if (skipSpace rest).isEmpty then .ok c else .error .malformed

/-- The configuration that a document holds. -/
def read (text : String) : Except Fault Config := readChars text.toList

end Config

end KeyLease
