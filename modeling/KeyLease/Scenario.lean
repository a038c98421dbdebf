import KeyLease.CommandLine.Run
import KeyLease.Backend

set_option autoImplicit false

/-!
# Scenarios

A scenario drives one store through a list of steps, on a clock that only the steps move. Steps are
operations of the store, of lockers and admission guards, whole commands, moves of the clock, and
orders to the server of a Redis store. `Scenario.step` tells the outcome of a step, `Scenario.sight`
what can be seen of the store between two steps.
-/

namespace KeyLease

/-- One step of a scenario. -/
inductive Scenario.Step
  | connect
  | disconnect
  | check (probe : Probe)
  | backend
  | acquire (key : String) (ttl : Duration)
  | release (key : String)
  | exists (key : String)
  | contend (key : String) (ttl : Duration) (n : Nat)
  | lock (l : Locker)
  | unlock (l : Locker)
  | isLocked (l : Locker)
  | locker (m : LockManager) (l : Locker)
  | validate (g : AdmissionGuard) (key : String)
  | isAdmitted (g : AdmissionGuard) (key : String)
  | guardTtl (g : AdmissionGuard)
  | command (words : List String)
  | sleep (d : Duration)
  | jump (d : Duration)
  | sweep
  | failWith (message : String)
  | server (order : Redis.Order)

/-- What a step gives. -/
inductive Scenario.Outcome
  | unit (r : Except Failure Unit)
  | flag (r : Except Failure Bool)
  | count (n : Nat)
  | name (s : String)
  | length (d : Duration)
  | locker (key : String) (ttl defaultTtl : Duration) (text : String)
  | message (r : Except Failure String)
  | usage (e : CommandLine.UsageError)
  | keys (live : List (String × Nat))

/-- What can be seen of a store between two steps. -/
inductive Scenario.Sight
  | memory (leases : Nat)
  | counting (calls : Nat) (lastTtl : Option Duration)
  | redis

/-- A store in a scenario: the configuration of its commands, and a server that it does not use
itself. -/
structure Scenario where
  store : Backend
  config : Config
  spare : Option Redis.Server := none

namespace Scenario

/-- The server of a scenario, if there is one. -/
def server? (s : Scenario) : Option Redis.Server :=
  match s.store with
  | .redis store => store.network.server
  | _ => s.spare

/-- The scenario with its server changed. -/
def withServer (s : Scenario) (server : Redis.Server) : Scenario :=
  match s.store with
  | .redis store => { s with store := .redis (store.withServer server) }
  | _ => { s with spare := some server }

/-- Carries out a script on the store of a scenario. -/
def carryOut {α : Type} (s : Scenario) (script : Script α) : α × Scenario :=
  let (a, store) := script.run s.store
  (a, { s with store })

/-- How many of `n` clients that ask at once are given a key. -/
def contend (key : String) (ttl : Duration) : Nat → Script Nat
  | 0 => .done 0
  | n + 1 => do
      let answer ← Script.ask (.tryAcquire key ttl)
      let others ← contend key ttl n
      return others + if answer.toOption.getD false then 1 else 0

/-- One step: its outcome and the scenario after it. -/
def step (s : Scenario) (step : Step) : Outcome × Scenario :=
  match step with
  | .connect =>
      let (r, store) := LeaseStore.connect s.store
      (.unit r, { s with store })
  | .disconnect =>
      let (r, store) := LeaseStore.disconnect s.store
      (.unit r, { s with store })
  | .check probe =>
      let (r, s) := s.carryOut (checkHealth probe)
      (.unit r, s)
  | .backend => (.name s.store.name, s)
  | .acquire key ttl =>
      let (r, s) := s.carryOut (Script.ask (.tryAcquire key ttl))
      (.flag r, s)
  | .release key =>
      let (r, s) := s.carryOut (Script.ask (.release key))
      (.flag r, s)
  | .exists key =>
      let (r, s) := s.carryOut (Script.ask (.exists key))
      (.flag r, s)
  | .contend key ttl n =>
      let (r, s) := s.carryOut (contend key ttl n)
      (.count r, s)
  | .lock l =>
      let (r, s) := s.carryOut l.lock
      (.unit r, s)
  | .unlock l =>
      let (r, s) := s.carryOut l.unlock
      (.unit r, s)
  | .isLocked l =>
      let (r, s) := s.carryOut l.isLocked
      (.flag (.ok r), s)
  | .locker m l => (.locker l.rawKey l.ttl m.defaultTtl (l.describe s.store.name), s)
  | .validate g key =>
      let (r, s) := s.carryOut (g.validate key)
      (.unit r, s)
  | .isAdmitted g key =>
      let (r, s) := s.carryOut (g.isAdmitted key)
      (.flag (.ok r), s)
  | .guardTtl g => (.length g.ttl, s)
  | .command words =>
      match CommandLine.Invocation.read [] words with
      | .error e => (.usage e, s)
      | .ok invocation =>
          let (r, s) := s.carryOut (invocation.command.script s.config s.store.name)
          (.message r, s)
  | .sleep d => (.unit (.ok ()), { s with store := LeaseStore.pass d s.store })
  | .jump d =>
      match s.store with
      | .memory store => (.unit (.ok ()), { s with store := .memory (store.jump d) })
      | _ => (.unit (.ok ()), s)
  | .sweep =>
      match s.store with
      | .memory store =>
          let (n, store) := store.sweep
          (.count n, { s with store := .memory store })
      | _ => (.count 0, s)
  | .failWith message =>
      match s.store with
      | .counting store => (.unit (.ok ()), { s with store := .counting (store.failWith message) })
      | _ => (.unit (.ok ()), s)
  | .server order =>
      match s.server? with
      | some server =>
          let server := server.obey order
          (.keys server.liveKeys, s.withServer server)
      | none => (.keys [], s)

/-- What can be seen of the store now. -/
def sight (s : Scenario) : Sight :=
  match s.store with
  | .memory store => .memory store.leases.size
  | .counting store => .counting store.calls store.lastTtl
  | .redis _ => .redis

/-- The server's log since it was last looked at, if there is a server. -/
def takeLog (s : Scenario) : Option (List (List String)) × Scenario :=
  match s.server? with
  | some server =>
      let (log, server) := server.takeLog
      (some log, s.withServer server)
  | none => (none, s)

/-- A whole scenario: for each step its outcome, what can be seen then, and the server's log. -/
def run (s : Scenario) :
    List Step → List (Outcome × Sight × Option (List (List String))) × Scenario
  | [] => ([], s)
  | next :: rest =>
      let (outcome, s) := s.step next
      let seen := s.sight
      let (log, s) := s.takeLog
      let (outcomes, s) := s.run rest
      ((outcome, seen, log) :: outcomes, s)

end Scenario

end KeyLease
