import KeyLease.Key
import KeyLease.LeaseStore
import KeyLease.Redis.Endpoint
import KeyLease.Redis.Server

set_option autoImplicit false

/-!
# The Redis store

A store whose leases are the keys of a Redis server, so that programs on many machines share them.
Each operation is one command, which the server carries out whole. A command waits for its reply no
longer than the configured limit. Whatever goes wrong is reported as an outage, never as a no.

The state of a store holds the network with the server, as far as one client sees it.
-/

namespace KeyLease.Redis

/-- The number of links of a store where nothing else is said. -/
def defaultPoolSize : Nat := 4

/-- The links of a connected store and the turn of the one to use next. -/
structure Pool where
  links : List Nat
  turn : Nat := 0
  deriving DecidableEq, Repr

/-- A Redis store and the network around it. -/
structure Store where
  address : Address
  endpoint : String
  opTimeout : Duration
  poolSize : Nat := defaultPoolSize
  status : Status := .uninitialized
  pool : Option Pool := none
  network : Network := {}

/-- The whole milliseconds of a time to live, at least one, if they fit 63 bits. -/
def pxMillis (ttl : Duration) : Except Failure Nat :=
  if ttl.wholeMillis < 0x8000000000000000 then .ok (max ttl.wholeMillis 1)
  else .error (.configInvalid (.ttlBeyondMillis ttl))

/-- What a client makes of an exchange, of which it hears within its limit or not at all. -/
def bounded {α : Type} (verb : Verb) (limit : Duration) :
    Option (Except Trouble α) → Except Failure α
  | none => .error (.backendUnavailable (.timedOut verb limit))
  | some (.error trouble) => .error (.backendUnavailable (.failed verb trouble))
  | some (.ok a) => .ok a

/-- What a client makes of the reply that came back within its limit, if one did. -/
def judge (verb : Verb) (limit : Duration) (take : Reply → Except Trouble Bool)
    (reply : Option Reply) : Answer :=
  bounded verb limit (reply.map take)

theorem judge_none (verb : Verb) (limit : Duration) (take : Reply → Except Trouble Bool) :
    judge verb limit take none = .error (.backendUnavailable (.timedOut verb limit)) := rfl

theorem judge_of_ok {verb : Verb} {limit : Duration} {take : Reply → Except Trouble Bool}
    {reply : Reply} {yes : Bool} (h : take reply = .ok yes) :
    judge verb limit take (some reply) = .ok yes := by
  simp only [judge, Option.map_some, h, bounded]

theorem judge_of_error {verb : Verb} {limit : Duration} {take : Reply → Except Trouble Bool}
    {reply : Reply} {t : Trouble} (h : take reply = .error t) :
    judge verb limit take (some reply) = .error (.backendUnavailable (.failed verb t)) := by
  simp only [judge, Option.map_some, h, bounded]

namespace Store

/-- The store that a valid configuration of the Redis backend describes. No link is opened. -/
def ofConfig (c : Config) (network : Network) : Except Failure Store :=
  match c.check, c.backendKind with
  | .error e, _ => .error e
  | _, .error e => .error e
  | .ok (), .ok .memory => .error (.configInvalid (.notRedis c.uri))
  | .ok (), .ok .redis =>
      match Address.read c.uri with
      | .error fault => .error (.configInvalid (.address fault))
      | .ok address =>
          .ok { address, endpoint := redact c.uri, opTimeout := c.opTimeout, network }

/-- The same store with another number of links, at least one. -/
def withPoolSize (s : Store) (n : Nat) : Store := { s with poolSize := max n 1 }

/-! ## Exchanges -/

/-- The server with some change, if there is one. -/
def withServer (s : Store) (server : Server) : Store :=
  { s with network := { s.network with server := some server } }

/-- Sends a command over the next link of the pool: the reply, if one comes back in time. -/
def send (s : Store) (pool : Pool) (c : Command) : Option Reply × Store :=
  match s.network.server, pool.links[pool.turn % pool.links.length]? with
  | some server, some link =>
      let (reply, server) := server.receive link c
      (reply, { s.withServer server with pool := some { pool with turn := pool.turn + 1 } })
  | _, _ => (none, s)

/-- Sends a command and judges what comes back. -/
def exchange (s : Store) (pool : Pool) (verb : Verb) (c : Command)
    (take : Reply → Except Trouble Bool) : Answer × Store :=
  let (reply, s) := s.send pool c
  (judge verb s.opTimeout take reply, s)

/-! ## Calls -/

/-- Sets the key unless it is there. -/
def tryAcquire (s : Store) (key : String) (ttl : Duration) : Answer × Store :=
  match ensureKey key, ensureTtl ttl, s.pool, pxMillis ttl with
  | .error e, _, _, _ => (.error e, s)
  | _, .error e, _, _ => (.error e, s)
  | _, _, none, _ => (.error .notConnected, s)
  | _, _, _, .error e => (.error e, s)
  | .ok (), .ok (), some pool, .ok px => s.exchange pool .setNxPx (.setNxPx key px) Reply.wasSet

/-- Removes the key. -/
def release (s : Store) (key : String) : Answer × Store :=
  match ensureKey key, s.pool with
  | .error e, _ => (.error e, s)
  | _, none => (.error .notConnected, s)
  | .ok (), some pool => s.exchange pool .del (.del key) Reply.anyKey

/-- Whether the key is there; no also where that cannot be told. -/
def exists? (s : Store) (key : String) : Bool × Store :=
  match ensureKey key, s.pool with
  | .ok (), some pool =>
      let (answer, s) := s.exchange pool .exists (.exists key) Reply.anyKey
      (answer.toOption.getD false, s)
  | _, _ => (false, s)

/-- Asks for a sign of life. -/
def ping (s : Store) : Answer × Store :=
  match s.pool with
  | none => (.error .notConnected, s)
  | some pool => s.exchange pool .ping .ping Reply.isAlive

/-! ## Sessions -/

/-- The commands that sign on over a new link. -/
def handshake (a : Address) : List Command :=
  (match a.password with
    | some password => [.auth a.user password]
    | none => [.ping]) ++
  match a.database with
  | some database => [.select database]
  | none => []

/-- Sends the commands of a handshake until one of them is not answered well. -/
def greetAll (limit : Duration) (server : Server) : List Command → Except Failure Unit × Server
  | [] => (.ok (), server)
  | c :: rest =>
      let (reply, server) := server.greet c
      match judge .connect limit Reply.isAlive reply with
      | .ok _ => greetAll limit server rest
      | .error e => (.error e, server)

/-- Opens a number of links one after the other, each with its handshake. -/
def openLinks (limit : Duration) (a : Address) (server : Server) :
    Nat → Except Failure (List Nat) × Server
  | 0 => (.ok [], server)
  | n + 1 =>
      let (link, server) := server.accept
      match greetAll limit server (handshake a) with
      | (.error e, server) => (.error e, server)
      | (.ok (), server) =>
          match openLinks limit a server n with
          | (.error e, server) => (.error e, server)
          | (.ok links, server) => (.ok (link :: links), server)

/-- Opens the links of the pool. -/
def openPool (s : Store) : Except Failure Pool × Store :=
  let failed (t : Trouble) : Failure := .backendUnavailable (.failed .connect t)
  match s.network.opening with
  | some mishap => (bounded .connect s.opTimeout mishap.heard, s)
  | none =>
      if ¬ s.network.reachable then (.error (failed .noRoute), s)
      else if s.address.port ≠ s.network.port then (.error (failed .refused), s)
      else
        match s.network.server with
        | none => (.error (failed .refused), s)
        | some server =>
            let (links, server) := openLinks s.opTimeout s.address server s.poolSize
            (links.map fun links => { links }, s.withServer server)

/-- Opens the links of the pool and asks for a sign of life. -/
def verify (s : Store) : Except Failure Unit × Store :=
  match s.openPool with
  | (.error e, s) => (.error e, s)
  | (.ok pool, s) =>
      let (answer, s) := s.exchange pool .ping .ping Reply.isAlive
      (answer.toUnit, s)

/-- Bids the links farewell and lets go of them, whatever becomes of the farewell. -/
def leave (s : Store) : Except Failure Unit × Store :=
  let heard : Option (Except Trouble Unit) :=
    match s.network.farewell with
    | some mishap => mishap.heard
    | none => some (.ok ())
  (bounded .quit s.opTimeout heard, { s with pool := none })

/-- Opens a session. Links that do not prove alive are left again, and what becomes of that farewell
changes nothing: the failure is that of the opening, and the store keeps what it had. -/
def openSession (s : Store) : Except Failure Unit × Store :=
  match s.verify with
  | (.ok (), opened) => (.ok (), opened)
  | (.error e, opened) =>
      let (_, left) := opened.leave
      (.error e, { left with pool := s.pool })

/-- Closes a session, if one is open. -/
def closeSession (s : Store) : Except Failure Unit × Store :=
  match s.pool with
  | none => (.ok (), s)
  | some _ => s.leave

/-- Connects. -/
def connect (s : Store) : Except Failure Unit × Store :=
  match s.status with
  | .connected => (.error .alreadyConnected, s)
  | _ =>
      let (opened, s) := s.openSession
      let (result, status) := s.status.connect opened
      (result, { s with status })

/-- Disconnects: the links are gone, whatever becomes of the farewell. -/
def disconnect (s : Store) : Except Failure Unit × Store :=
  match s.status with
  | .connected =>
      let (closed, s) := s.closeSession
      let (result, status) := s.status.disconnect closed
      (result, { s with status })
  | _ => (.error .notConnected, s)

/-- Checks health; only a connected store asks for a sign of life. -/
def check (s : Store) : Answer × Store :=
  match s.status with
  | .connected => s.ping
  | _ => ((s.status.health (.ok ())).map fun () => true, s)

/-- Carries out one call. -/
def perform (c : Call) (s : Store) : Answer × Store :=
  match c with
  | .tryAcquire key ttl => s.tryAcquire key ttl
  | .release key => s.release key
  | .exists key =>
      let (held, s) := s.exists? key
      (.ok held, s)
  | .check _ => s.check

end Store

instance : LeaseStore Store where
  backend _ := "redis"
  connect := Store.connect
  disconnect := Store.disconnect
  perform := Store.perform
  pass _ s := s

end KeyLease.Redis
