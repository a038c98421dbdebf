import KeyLease.Text.Split
import KeyLease.Text.Digits
import KeyLease.Text.PercentCoding

set_option autoImplicit false

/-!
# The address of a Redis server

An address is read from a URI `scheme://[user[:password]@]host[:port][/database]` by the rules of
the URL standard for schemes that it does not know. Blanks and control characters at either end
and tabs and line breaks anywhere are dropped. The authority ends at the first of `/`, `?` and `#`;
user information ends at the last `@` of the authority; a query and a fragment are read past. Dot
segments of the path are resolved before the database is looked for.

`Address.read` answers the address, or the first fault in the order host, port, database,
credentials.
-/

namespace KeyLease.Redis

/-- Why a text is not the address of a server. -/
inductive AddressFault
  | emptyHost
  | ipv6
  | hostCharacter
  | port
  | missingHost
  | databasePath
  | databaseNumber
  | credentials
  deriving DecidableEq, Repr

/-- What a fault says: the kind of fault, then the fault. -/
def AddressFault.message : AddressFault → String
  | .emptyHost => "Url Error: EmptyHost"
  | .ipv6 => "Url Error: InvalidIpv6Address"
  | .hostCharacter => "Url Error: InvalidDomainCharacter"
  | .port => "Url Error: InvalidPort"
  | .missingHost => "Config Error: Invalid or missing host."
  | .databasePath => "Config Error: Invalid database path."
  | .databaseNumber => "Parse Error: Invalid integer string."
  | .credentials => "Parse Error: Invalid UTF-8 string."

/-- The machine that a server runs on: a name, or the eight pieces of an IPv6 address. -/
inductive Host
  | named (name : String)
  | ipv6 (groups : List Nat)
  deriving DecidableEq, Repr

/-- Where a server is and how to sign on to it. -/
structure Address where
  scheme : String
  user : Option String
  password : Option String
  host : Host
  port : Nat
  database : Option Nat
  deriving DecidableEq, Repr

/-- The port of a server whose address names none. -/
def defaultPort : Nat := 6379

/-! ## Hosts -/

/-- The value of up to `limit` leading hexadecimal digits after the value `acc`, how many there
were, and the rest. -/
def hexGroup (limit acc : Nat) (cs : List Char) : Nat × Nat × List Char :=
  match limit, cs with
  | limit + 1, c :: rest =>
      match Text.PercentCoding.hexDigit? c with
      | some d =>
          let (value, count, after) := hexGroup limit (acc * 16 + d) rest
          (value, count + 1, after)
      | none => (acc, 0, cs)
  | _, _ => (acc, 0, cs)

/-- Reading a group of digits leaves no more than there was. -/
theorem hexGroup_length_le (limit acc : Nat) (cs : List Char) :
    (hexGroup limit acc cs).2.2.length ≤ cs.length := by
  induction limit generalizing acc cs with
  | zero => simp [hexGroup]
  | succ limit ih =>
      cases cs with
      | nil => simp [hexGroup]
      | cons c rest =>
          simp only [hexGroup]
          split
          · exact Nat.le_succ_of_le (ih _ rest)
          · simp

/-- One number of a dotted address: no leading zero, at most 255. -/
def dottedNumber? (cs : List Char) : Option Nat :=
  match Text.magnitude? cs with
  | some n => if n ≤ 255 ∧ (cs.head? ≠ some '0' ∨ cs.length = 1) then some n else none
  | none => none

/-- The two pieces that four numbers with dots between them stand for. -/
def dottedPieces? (cs : List Char) : Option (List Nat) :=
  match (Text.pieces '.' cs).map dottedNumber? with
  | [some a, some b, some c, some d] => some [a * 256 + b, c * 256 + d]
  | _ => none

/-- The pieces of an IPv6 address: those before the gap `::` and, if there is one, those after. -/
structure Ipv6Pieces where
  before : List Nat
  gap : Option (List Nat)

/-- How many of the eight places are taken; a gap takes at least one. -/
def Ipv6Pieces.taken (p : Ipv6Pieces) : Nat :=
  p.before.length + match p.gap with
    | none => 0
    | some after => after.length + 1

/-- One more piece. -/
def Ipv6Pieces.push (p : Ipv6Pieces) (n : Nat) : Ipv6Pieces :=
  match p.gap with
  | none => { p with before := p.before ++ [n] }
  | some after => { p with gap := some (after ++ [n]) }

/-- The pieces that a text adds to those before it. -/
def ipv6Pieces? (p : Ipv6Pieces) (cs : List Char) : Option Ipv6Pieces :=
  match cs with
  | [] => some p
  | ':' :: rest =>
      if p.taken = 8 ∨ p.gap.isSome then none
      else ipv6Pieces? { p with gap := some [] } rest
  | c :: rest =>
      if p.taken = 8 then none else
      match _read : hexGroup 4 0 (c :: rest) with
      | (value, _, []) => some (p.push value)
      | (_, count, '.' :: _) =>
          -- What was read as hexadecimal is the first number of a dotted address at the end.
          if count = 0 ∨ 6 < p.taken then none
          else (dottedPieces? (c :: rest)).map fun pieces => pieces.foldl Ipv6Pieces.push p
      | (value, _, ':' :: after) =>
          if after.isEmpty then none else ipv6Pieces? (p.push value) after
      | _ => none
termination_by cs.length
decreasing_by
  · simp
  · have := hexGroup_length_le 4 0 (c :: rest)
    rw [_read] at this
    simp at this ⊢
    omega

/-- The eight pieces of an IPv6 address. -/
def ipv6? (cs : List Char) : Option (List Nat) :=
  let read := match cs with
    | ':' :: ':' :: rest => ipv6Pieces? ⟨[], some []⟩ rest
    | ':' :: _ => none
    | [_] => none
    | [] => none
    | _ => ipv6Pieces? ⟨[], none⟩ cs
  match read with
  | none => none
  | some p =>
      match p.gap with
      | some after =>
          some (p.before ++ List.replicate (8 - p.before.length - after.length) 0 ++ after)
      | none => if p.before.length = 8 then some p.before else none

/-- The characters that the name of a host may not hold. -/
def isForbiddenInHost (c : Char) : Bool :=
  c ∈ ['\x00', '\t', '\n', '\r', ' ', '#', '/', ':', '<', '>', '?', '@', '[', '\\', ']', '^', '|']

/-- A character of a host's name: control characters and all beyond ASCII as percent escapes. -/
def hostChar (c : Char) : List Char :=
  if c.toNat ≤ 0x1F ∨ 0x7F ≤ c.toNat then
    (String.utf8EncodeChar c).flatMap fun b =>
      let n := b.toNat
      '%' :: (Nat.toDigits 16 (n / 16) ++ Nat.toDigits 16 (n % 16)).map Char.toUpper
  else [c]

/-- The host that a text names; the empty text names none. -/
def readHost (cs : List Char) : Except AddressFault (Option Host) :=
  match cs with
  | [] => .ok none
  | '[' :: inner =>
      if inner.getLast? = some ']' then
        match ipv6? inner.dropLast with
        | some groups => .ok (some (.ipv6 groups))
        | none => .error .ipv6
      else .error .ipv6
  | _ =>
      if cs.any isForbiddenInHost then .error .hostCharacter
      else .ok (some (.named (String.ofList (cs.flatMap hostChar))))

/-- The host's text and what follows it: up to a colon outside brackets. -/
def splitHost (bracketed : Bool) : List Char → List Char × List Char
  | [] => ([], [])
  | c :: cs =>
      if c = ':' ∧ ¬ bracketed then ([], c :: cs)
      else
        let bracketed := if c = '[' then true else if c = ']' then false else bracketed
        let (host, rest) := splitHost bracketed cs
        (c :: host, rest)

/-! ## Ports, paths and credentials -/

/-- The port that a text after a colon gives; the empty text gives none. -/
def readPort (cs : List Char) : Except AddressFault (Option Nat) :=
  match cs with
  | [] => .ok none
  | _ =>
      match Text.magnitude? cs with
      | some n => if n ≤ 65535 then .ok (some n) else .error .port
      | none => .error .port

/-- A segment that stands for the segment itself. -/
def isSingleDot (segment : List Char) : Bool :=
  (String.ofList segment).toLower ∈ [".", "%2e"]

/-- A segment that stands for the one above. -/
def isDoubleDot (segment : List Char) : Bool :=
  (String.ofList segment).toLower ∈ ["..", "%2e%2e", "%2e.", ".%2e"]

/-- A letter and a colon or bar, which no segment can step above. -/
def isDriveLetter : List Char → Bool
  | [c, d] => c.isAlpha && (d = ':' || d = '|')
  | _ => false

/-- One segment up. -/
def stepAbove : List (List Char) → List (List Char)
  | [] => []
  | s :: above => if isDriveLetter s then s :: above else above

/-- The segments of a path once its dot segments are resolved; `above` holds those passed, last
first. -/
def resolveDots (above : List (List Char)) : List (List Char) → List (List Char)
  | [] => above.reverse
  | [s] =>
      -- A dot segment at the end leaves an empty segment behind.
      if isDoubleDot s then ((stepAbove above).reverse ++ [[]])
      else if isSingleDot s then above.reverse ++ [[]]
      else above.reverse ++ [s]
  | s :: rest =>
      if isDoubleDot s then resolveDots (stepAbove above) rest
      else if isSingleDot s then resolveDots above rest
      else resolveDots (s :: above) rest

/-- The database that a path names: a number below 256, or none. -/
def readDatabase (path : List Char) : Except AddressFault (Option Nat) :=
  match path with
  | [] => .ok none
  | c :: rest =>
      match resolveDots [] (Text.pieces '/' (if c = '/' then rest else c :: rest)) with
      | [] => .ok none
      | [[]] => .ok none
      | [segment] =>
          match Text.natBelow? 256 segment with
          | some n => .ok (some n)
          | none => .error .databaseNumber
      | _ => .error .databasePath

/-- A credential: none if it is not given or empty. -/
def readCredential (cs : List Char) : Except AddressFault (Option String) :=
  match Text.PercentCoding.decode? cs with
  | some text => .ok (if text.isEmpty then none else some text)
  | none => .error .credentials

/-! ## The whole address -/

/-- A space or a control character below it. -/
def isSpaceOrControl (c : Char) : Bool := c.toNat ≤ 0x20

/-- A URI as the standard reads it: blanks and control characters at the ends dropped, tabs and line
breaks dropped everywhere. -/
def significant (cs : List Char) : List Char :=
  let trimmed := ((cs.dropWhile isSpaceOrControl).reverse.dropWhile isSpaceOrControl).reverse
  trimmed.filter fun c => ¬ (c = '\t' ∨ c = '\n' ∨ c = '\r')

/-- Whether a character ends the authority of a URI. -/
def endsAuthority (c : Char) : Bool := c = '/' || c = '?' || c = '#'

/-- User name and password, split at the first colon. -/
def splitCredentials (userInfo : List Char) : List Char × List Char :=
  (Text.splitFirst [':'] userInfo).getD (userInfo, [])

/-- What a URI says after its scheme, in parts: user name and password, host, the text after the
host's colon if there is one, and the path. -/
structure Parts where
  user : List Char
  password : List Char
  host : Host
  port : Option Nat
  path : List Char

/-- The parts of a URI after its scheme. -/
def Parts.read (cs : List Char) : Except AddressFault Parts := do
  let authority := cs.takeWhile (! endsAuthority ·)
  let rest := cs.dropWhile (! endsAuthority ·)
  let (userInfo, hostPort) := (Text.splitLast '@' authority).getD ([], authority)
  -- A bare `@` with something behind it is an empty host.
  if userInfo.isEmpty ∧ hostPort.isEmpty ∧ ¬ authority.isEmpty ∧ ¬ rest.isEmpty then
    throw .emptyHost
  let (user, password) := splitCredentials userInfo
  let (hostText, afterHost) := splitHost false hostPort
  let host ← readHost hostText
  if host.isNone ∧ ¬ afterHost.isEmpty then throw .emptyHost
  -- The port ends at a backslash too, and what follows that is part of the path.
  let portText := (afterHost.drop 1).takeWhile (· ≠ '\\')
  let port ← readPort portText
  let some host := host
    | throw (if user.isEmpty ∧ password.isEmpty then .missingHost else .emptyHost)
  let path := (afterHost.drop 1).dropWhile (· ≠ '\\')
    ++ rest.takeWhile fun c => ¬ (c = '?' ∨ c = '#')
  return { user, password, host, port, path }

/-- The address that a URI gives. -/
def Address.read (uri : String) : Except AddressFault Address := do
  let some (scheme, rest) := Text.splitFirst [':', '/', '/'] (significant uri.toList)
    | throw .missingHost
  let parts ← Parts.read rest
  let database ← readDatabase parts.path
  let user ← readCredential parts.user
  let password ← readCredential parts.password
  return {
    scheme := String.ofList scheme
    user, password, host := parts.host
    port := parts.port.getD defaultPort
    database }

end KeyLease.Redis
