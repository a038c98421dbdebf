import KeyLease.Text.Split
import KeyLease.Text.Digits

set_option autoImplicit false

/-!
# One level of a command line

A command line is read in levels: the program's own options up to the name of a subcommand, then
those of the subcommand. A level is described by its options, each of which takes one value, and
by whether it takes a key, a word of its own.

A word `--name=value` gives an option at once. A word `--name` leaves its option pending, and the
next word is its value unless it begins with a minus sign; the value is read only when the next
option, a key or the end of the level settles it. After a word `--` all words are keys. An option
that is given twice is refused.
-/

namespace KeyLease.CommandLine

/-- Why a command line is not carried out. Two of the reasons are requests for help. -/
inductive UsageError
  | help
  | helpForNothing
  | missingSubcommand
  | unknownSubcommand
  | unknownArgument
  | missingKey
  | missingValue
  | badValue
  | repeatedOption
  | valueOfFlag
  deriving DecidableEq, Repr

/-- What the value of an option must be. -/
inductive ValueKind
  /-- Any text. -/
  | text
  /-- A number below `2 ^ 64`. -/
  | number
  /-- A text that is not empty. -/
  | path
  deriving DecidableEq, Repr

/-- The value of an option. -/
inductive Value
  | text (s : String)
  | number (n : Nat)
  deriving DecidableEq, Repr

/-- Reads a value. -/
def ValueKind.read (k : ValueKind) (s : String) : Except UsageError Value :=
  match k with
  | .text => .ok (.text s)
  | .number =>
      match Text.natBelow? 0x10000000000000000 s.toList with
      | some n => .ok (.number n)
      | none => .error .badValue
  | .path => if s.isEmpty then .error .missingValue else .ok (.text s)

/-- The options of a level by name, and whether it takes a key. -/
structure Level where
  options : List (String × ValueKind)
  takesKey : Bool
  deriving DecidableEq, Repr

/-- What has been read of a level. -/
structure Reading where
  /-- The options that are settled. -/
  values : List (String × Value) := []
  /-- The option to settle next, with its value if that has been read. -/
  pending : Option (String × Option String) := none
  key : Option String := none
  /-- Whether all further words are keys. -/
  onlyKeys : Bool := false
  deriving DecidableEq, Repr

namespace Reading

/-- The value of an option that was given. -/
def value? (r : Reading) (name : String) : Option Value := r.values.lookup name

/-- The number that an option was given. -/
def number? (r : Reading) (name : String) : Option Nat :=
  match r.value? name with
  | some (.number n) => some n
  | _ => none

/-- The text that an option was given. -/
def text? (r : Reading) (name : String) : Option String :=
  match r.value? name with
  | some (.text s) => some s
  | _ => none

/-- Whether an option waits for its value. -/
def awaitsValue (r : Reading) : Bool :=
  match r.pending with
  | some (_, none) => true
  | _ => false

/-- Gives an option its value. -/
def give (l : Level) (r : Reading) (name value : String) : Except UsageError Reading :=
  if (r.value? name).isSome then .error .repeatedOption
  else
    match l.options.lookup name with
    | none => .error .unknownArgument
    | some kind =>
        match kind.read value with
        | .ok v => .ok { r with values := r.values ++ [(name, v)] }
        | .error e => .error e

/-- Settles the pending option. -/
def settle (l : Level) (r : Reading) : Except UsageError Reading :=
  match r.pending with
  | none => .ok r
  | some (_, none) => .error .missingValue
  | some (name, some value) => { r with pending := none }.give l name value

/-- A word that stands for itself: the key, if one is still wanted. -/
def takeKey (l : Level) (r : Reading) (word : String) : Except UsageError Reading :=
  if l.takesKey ∧ r.key.isNone then (r.settle l).map fun r => { r with key := some word }
  else .error .unknownArgument

/-- A word `--name` or `--name=value`, of which the part behind the minus signs is given. -/
def takeLong (l : Level) (r : Reading) (part : List Char) : Except UsageError Reading :=
  let (name, attached) : String × Option String := match Text.splitFirst ['='] part with
    | some (name, value) => (String.ofList name, some (String.ofList value))
    | none => (String.ofList part, none)
  if name = "help" then
    match attached, r.settle l with
    | some _, _ => .error .valueOfFlag
    | none, .error e => .error e
    | none, .ok _ => .error .help
  else if (l.options.lookup name).isNone then .error .unknownArgument
  else
    match r.settle l with
    | .error e => .error e
    | .ok r =>
        match attached with
        | some value => r.give l name value
        | none => .ok { r with pending := some (name, none) }

/-- A word with one minus sign, of which the first letter is given. -/
def takeShort (l : Level) (r : Reading) (letter : Char) : Except UsageError Reading :=
  if letter = 'h' then
    match r.settle l with
    | .error e => .error e
    | .ok _ => .error .help
  else .error .unknownArgument

/-- One word of a level. -/
def take (l : Level) (r : Reading) (word : String) : Except UsageError Reading :=
  if r.onlyKeys then r.takeKey l word
  else
    match word.toList with
    | ['-', '-'] => .ok { r with onlyKeys := true }
    | '-' :: '-' :: part => r.takeLong l part
    | '-' :: letter :: _ => r.takeShort l letter
    | _ =>
        match r.pending with
        | some (name, none) => .ok { r with pending := some (name, some word) }
        | _ => r.takeKey l word

/-- All words of a level, then its end. -/
def takeAll (l : Level) (r : Reading) : List String → Except UsageError Reading
  | [] => r.settle l
  | word :: rest =>
      match r.take l word with
      | .error e => .error e
      | .ok r => r.takeAll l rest

end Reading

end KeyLease.CommandLine
