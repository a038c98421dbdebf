import KeyLease.Redis.Keyspace

set_option autoImplicit false

/-!
# A server that can be told how to behave

A server answers commands over links. It can be told to answer commands of one name with a fixed
text, which then have no effect, or to hold their replies back: a link whose reply is held back
waits, and commands that arrive on it are carried out only when the replies are let go. The server
logs the commands that it reads.
-/

namespace KeyLease.Redis

/-- How commands of one name are treated. -/
inductive Treatment
  | answer (wire : String)
  | silence
  deriving DecidableEq, Repr

/-- A link as its server sees it: the name of the command whose reply it holds back, and the
commands that wait behind it. -/
structure Link where
  held : Option String := none
  backlog : List Command := []
  deriving DecidableEq, Repr

/-- What a server is told at once, in this order: its clock moves, a key is put, and commands of a
name are treated anew. -/
structure Order where
  advance : Nat := 0
  put : Option (String × Nat) := none
  treat : Option (String × Option Treatment) := none
  deriving DecidableEq, Repr

/-- A server with its links and what it was told. -/
structure Server where
  keys : Keyspace := {}
  links : List Link := []
  treatments : List (String × Treatment) := []
  log : List (List String) := []
  handshakes : List (List String) := []
  deriving DecidableEq, Repr

namespace Server

/-- How commands of a name are treated. -/
def treatment? (s : Server) (name : String) : Option Treatment := s.treatments.lookup name

/-- A command read from a link that is free: its reply, unless it is held back or no whole reply. -/
def carryOut (s : Server) (c : Command) : Option Reply × Server :=
  match s.treatment? c.name with
  | some (.answer wire) => (Reply.ofWire? wire, s)
  | some .silence => (none, { s with keys := (s.keys.execute c).2 })
  | none =>
      let (reply, keys) := s.keys.execute c
      (some reply, { s with keys })

/-- Whether replies to a command are held back. -/
def silences (s : Server) (c : Command) : Bool := s.treatment? c.name = some .silence

/-- A command that arrives on a link: its reply if one comes back. -/
def receive (s : Server) (link : Nat) (c : Command) : Option Reply × Server :=
  match s.links[link]? with
  | none => (none, s)
  | some l =>
      if l.held.isSome then
        (none, { s with links := s.links.set link { l with backlog := l.backlog ++ [c] } })
      else
        let s := { s with log := s.log ++ [c.words] }
        let (reply, s) := s.carryOut c
        -- A reply that is held back holds up all that comes after it on the link.
        if s.silences c then
          (none, { s with links := s.links.set link { l with held := some c.name } })
        else (reply, s)

/-- A command of a handshake: not logged, but remembered if it signs on or turns to a database. Only
such commands are treated as told. -/
def greet (s : Server) (c : Command) : Option Reply × Server :=
  match c with
  | .auth _ _ | .select _ =>
      let s := { s with handshakes := if c.words ∈ s.handshakes then s.handshakes
                                      else s.handshakes ++ [c.words] }
      s.carryOut c
  | _ => (some (s.keys.execute c).1, s)

/-- A new link, and its number. -/
def accept (s : Server) : Nat × Server := (s.links.length, { s with links := s.links ++ [{}] })

/-- The commands that waited on a link are carried out in order, up to the first whose reply is held
back. -/
def drain (s : Server) (link : Nat) : List Command → Server
  | [] => s
  | c :: rest =>
      let s := (s.receive link c).2
      drain s link rest

/-- The links that hold back replies to commands of a name are freed. -/
def letGo (s : Server) (name : String) : Server :=
  (List.range s.links.length).foldl (fun s i =>
    match s.links[i]? with
    | some l =>
        if l.held = some name then
          drain { s with links := s.links.set i {} } i l.backlog
        else s
    | none => s) s

/-- Tells the server how to treat commands of a name from now on; `none` means as usual. -/
def treat (s : Server) (name : String) (t : Option Treatment) : Server :=
  let others := s.treatments.filter (·.1 ≠ name)
  match t with
  | some .silence => { s with treatments := (name, .silence) :: others }
  | some other => letGo { s with treatments := (name, other) :: others } name
  | none => letGo { s with treatments := others } name

/-- The server after an order. -/
def obey (s : Server) (order : Order) : Server :=
  let s := { s with keys := s.keys.advance order.advance }
  let s := match order.put with
    | some (key, px) => { s with keys := s.keys.put key px }
    | none => s
  match order.treat with
  | some (name, treatment) => s.treat name treatment
  | none => s

/-- The live keys, sorted, with the milliseconds that are left to them. -/
def liveKeys (s : Server) : List (String × Nat) := s.keys.remaining.mergeSort fun a b => a.1 ≤ b.1

/-- The log so far, and a server whose log starts anew. -/
def takeLog (s : Server) : List (List String) × Server := (s.log, { s with log := [] })

end Server

/-- What can befall an exchange, whatever the server makes of it: nothing comes of it, or it is
reported to have failed. -/
inductive Mishap
  | silence
  | trouble (t : Trouble)
  deriving DecidableEq, Repr

/-- What a client hears of an exchange with a mishap, if it hears anything. -/
def Mishap.heard {α : Type} : Mishap → Option (Except Trouble α)
  | .silence => none
  | .trouble t => some (.error t)

/-- What lies between a client and servers: whether any host can be reached, the server that listens
at one port, and what befalls the opening of links and the farewell to them. What a server answers
to a farewell is not looked at. -/
structure Network where
  reachable : Bool := true
  port : Nat := 0
  server : Option Server := none
  opening : Option Mishap := none
  farewell : Option Mishap := none
  deriving DecidableEq, Repr

end KeyLease.Redis
