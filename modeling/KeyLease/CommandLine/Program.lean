import KeyLease.CommandLine.Run
import KeyLease.Backend
import KeyLease.Interrupt

set_option autoImplicit false

/-!
# A run of the program

A run reads its command line, opens the store that it asks for, connects, carries out the command,
disconnects and says how it ended. An interrupt may arrive while a call is unanswered or while a
lock is held. A command that does not listen for it is aborted, and the store is disconnected all
the same. A command that holds a lock listens from the moment it holds it: the wait is cut short
and the lock given back. Before that moment an interrupt ends the program on the spot.

The exit status tells contention (2) from every other failure (1), and an aborted command (130)
from both.
-/

namespace KeyLease.CommandLine

/-- How a run ended. -/
inductive Ending
  /-- The command line was not carried out. -/
  | usage (e : UsageError)
  /-- There was no configuration. -/
  | unconfigured (problem : ConfigProblem)
  /-- The store could not be opened or connected. -/
  | unconnected (failure : Failure)
  /-- The command came to its end. -/
  | finished (result : Except Failure String)
  /-- An interrupt aborted the command. -/
  | aborted
  /-- An interrupt ended the program before anything listened for it. -/
  | killed

namespace Ending

/-- The exit status. -/
def status : Ending → Nat
  | .usage .help => 0
  | .usage _ => 2
  | .unconfigured _ => 1
  | .unconnected _ => 1
  | .finished (.ok _) => 0
  | .finished (.error e) => if e.isContention then 2 else 1
  | .aborted => 130
  | .killed => 130

/-- What is printed on the standard output; `usage` is the text of the help. -/
def output (usage : String) : Ending → String
  | .usage .help => usage
  | .finished (.ok message) => message ++ "\n"
  | _ => ""

/-- What is printed on the standard error; `usage` is the text of the help. -/
def complaint (usage : String) : Ending → String
  | .usage .help => ""
  | .usage _ => usage
  | .unconfigured problem => "Error: " ++ problem.message ++ "\n"
  | .unconnected failure => "Error: " ++ failure.message ++ "\n"
  | .finished (.error e) => e.code ++ ": " ++ e.message ++ "\n"
  | _ => ""

end Ending

/-- Carries out a command on a connected store and disconnects it. An interrupt that reaches a
command which listens for it itself, but not yet, kills the program with the store connected. -/
def serve {σ : Type} [LeaseStore σ] (config : Config) (command : Command) (i : Interrupt)
    (store : σ) : Ending × σ :=
  match (command.script config (LeaseStore.backend store)).runUntil i store with
  | (.ended result, store) => (.finished result, (LeaseStore.disconnect store).2)
  | (.stopped, store) =>
      if command.handlesInterrupt then (.killed, store)
      else (.aborted, (LeaseStore.disconnect store).2)

/-- Connects a store, carries out a command and disconnects. -/
def session {σ : Type} [LeaseStore σ] (config : Config) (command : Command) (i : Interrupt)
    (store : σ) : Ending × σ :=
  match LeaseStore.connect store with
  | (.error e, store) => (.unconnected e, store)
  | (.ok (), store) => serve config command i store

/-- A whole run: how it ended, and the store at its end if one was opened. -/
def run (env : List (String × String)) (files : Files) (network : Redis.Network)
    (words : List String) (i : Interrupt) : Ending × Option Backend :=
  match Invocation.read env words with
  | .error e => (.usage e, none)
  | .ok invocation =>
      match invocation.config files with
      | .error problem => (.unconfigured problem, none)
      | .ok config =>
          match Backend.ofConfig config invocation.poolSize network with
          | .error failure => (.unconnected failure, none)
          | .ok store =>
              let (ending, store) := session config invocation.command i store
              (ending, some store)

/-! ## Interrupts at the first wait -/

/-- The interrupt that arrives as soon as a run waits behind the command that takes its key: for a
reply that the server holds back, or else while a lock is held. -/
def atFirstWait (network : Redis.Network) : Interrupt :=
  match network.server.bind (·.treatment? "SET") with
  | some .silence => .inCall 0
  | _ => .inHold .zero

/-- The network once such an interrupt has arrived: the server treats that command as usual. -/
def afterInterrupt (network : Redis.Network) : Redis.Network :=
  { network with server := network.server.map (·.treat "SET" none) }

end KeyLease.CommandLine
