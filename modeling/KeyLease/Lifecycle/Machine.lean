import KeyLease.Lifecycle.Status

set_option autoImplicit false

/-!
# Concurrent transitions

Any number of tasks may ask one lifecycle to connect or disconnect. Transitions run one at a time,
in the order in which they were asked for; each runs the work that opens or closes the session,
which takes time and may fail. A task may be dropped at any moment, waiting or running, and the next
one takes its turn.

Health checks stand beside the transitions: each reads the status when it starts, never waits for a
turn, and bounds its sign of life by a limit.

Time is counted in milliseconds. The log tells when each task began and ended its work; a
transition that is refused ends without having begun.
-/

namespace KeyLease.Lifecycle

/-- The two transitions. -/
inductive Transition
  | connect
  | disconnect
  deriving DecidableEq, Repr

/-- A task that asks for a transition: the work takes `delay` and gives `outcome`. -/
structure Request where
  task : Nat
  transition : Transition
  delay : Nat
  outcome : Except Failure Unit

/-- A request whose work is under way until an instant. -/
structure Turn where
  request : Request
  ends : Nat

/-- A health check that waits for a sign of life until an instant, and what it will say then. -/
structure Check where
  task : Nat
  ends : Nat
  result : Except Failure Unit

/-- What can happen to a task. -/
inductive Event
  | began
  | ended (result : Except Failure Unit)
  | dropped

/-- What happened to a task, and when. -/
structure Entry where
  time : Nat
  task : Nat
  event : Event

/-- The state of a lifecycle and of the tasks at work on it. The status is kept twice: transitions
go by the one that comes with the turn, everyone else by the one that is published. -/
structure Machine where
  now : Nat := 0
  status : Status := .uninitialized
  guarded : Status := .uninitialized
  turn : Option Turn := none
  waiting : List Request := []
  checks : List Check := []
  log : List Entry := []

namespace Machine

/-- Notes an event of a task. -/
def note (m : Machine) (task : Nat) (event : Event) : Machine :=
  { m with log := m.log ++ [⟨m.now, task, event⟩] }

/-- Shows a status to transitions and to everyone else. -/
def publish (m : Machine) (status : Status) : Machine := { m with guarded := status, status }

/-- Why a request is refused in a status, if it is. -/
def refusal? (status : Status) : Transition → Option Failure
  | .connect => if status = .connected then some .alreadyConnected else none
  | .disconnect => if status = .connected then none else some .notConnected

/-- A request begins its work; one that disconnects shows its status at once. -/
def begin (m : Machine) (r : Request) : Machine :=
  let m := m.note r.task .began
  match r.transition with
  | .connect => m
  | .disconnect => m.publish .disconnected

/-- A request ends its work; one that connects shows its status only now, and only on success. -/
def finish (m : Machine) (r : Request) : Machine :=
  let m := m.note r.task (.ended r.outcome)
  match r.transition, r.outcome with
  | .connect, .ok () => m.publish .connected
  | _, _ => m

/-- Gives turns to requests in order until one is still at work at the instant `target`. -/
def serveUntil (target : Nat) (m : Machine) : List Request → Machine
  | [] => { m with turn := none, waiting := [] }
  | r :: rest =>
      match refusal? m.guarded r.transition with
      | some failure => serveUntil target (m.note r.task (.ended (.error failure))) rest
      | none =>
          let m := m.begin r
          let ends := m.now + r.delay
          if ends ≤ target then serveUntil target ({ m with now := ends }.finish r) rest
          else { m with turn := some ⟨r, ends⟩, waiting := rest }

/-- A task asks for a transition. -/
def request (m : Machine) (r : Request) : Machine :=
  match m.turn with
  | some _ => { m with waiting := m.waiting ++ [r] }
  | none => m.serveUntil m.now (m.waiting ++ [r])

/-- When a check of a connected lifecycle that starts now ends, and what it says. A sign of life
that comes exactly at the limit counts. -/
def plan (m : Machine) (task : Nat) (limit : Duration) (delay : Nat)
    (outcome : Except Failure Unit) : Check :=
  if delay ≤ limit.timerMillis then ⟨task, m.now + delay, outcome⟩
  else ⟨task, m.now + limit.timerMillis, .error (.backendUnavailable (.healthTimedOut limit))⟩

/-- Health checks whose time has come are answered. -/
def answerChecks (m : Machine) (target : Nat) : Machine :=
  let due := m.checks.filter (·.ends ≤ target)
  { m with
    checks := m.checks.filter (target < ·.ends)
    log := m.log ++ due.map fun c => ⟨c.ends, c.task, .ended c.result⟩ }

/-- A task checks health: the sign of life would take `delay` and give `outcome`. -/
def check (m : Machine) (task : Nat) (limit : Duration) (delay : Nat)
    (outcome : Except Failure Unit) : Machine :=
  match m.status with
  | .connected =>
      { m with checks := m.checks ++ [m.plan task limit delay outcome] }.answerChecks m.now
  | status => m.note task (.ended (status.health outcome))

/-- Time passes up to an instant. -/
def passUntil (m : Machine) (target : Nat) : Machine :=
  let m := m.answerChecks target
  let m := match m.turn with
    | some t =>
        if t.ends ≤ target then
          serveUntil target ({ m with now := t.ends }.finish t.request) m.waiting
        else m
    | none => m
  { m with now := max m.now target }

/-- Drops a health check. -/
def dropCheck (m : Machine) (task : Nat) : Machine :=
  if m.checks.any (·.task = task) then
    { m with checks := m.checks.filter (·.task ≠ task) }.note task .dropped
  else m

/-- A task is dropped; if it is over nothing happens. -/
def drop (m : Machine) (task : Nat) : Machine :=
  if m.turn.any (·.request.task = task) then (m.note task .dropped).serveUntil m.now m.waiting
  else if m.waiting.any (·.task = task) then
    { m with waiting := m.waiting.filter (·.task ≠ task) }.note task .dropped
  else m.dropCheck task

/-- How a task came to its end. -/
inductive Verdict
  | ended (result : Except Failure Unit)
  | dropped

/-- The end of a task, if it has come. -/
def verdict? (m : Machine) (task : Nat) : Option Verdict :=
  m.log.findSome? fun e =>
    if e.task = task then
      match e.event with
      | .began => none
      | .ended result => some (.ended result)
      | .dropped => some .dropped
    else none

/-- The next instant at which a task at work or a check ends. -/
def nextEnd? (m : Machine) : Option Nat :=
  ((m.turn.toList.map (·.ends)) ++ m.checks.map (·.ends)).min?

/-- Time passes until a task is over. Each round ends one task at least, so as many rounds suffice
as there are tasks. -/
def await (task : Nat) (m : Machine) : Machine :=
  go (m.waiting.length + m.checks.length + 1) m
where
  /-- At most that many rounds. -/
  go : Nat → Machine → Machine
    | 0, m => m
    | rounds + 1, m =>
        match m.verdict? task, m.nextEnd? with
        | none, some ends => go rounds (m.passUntil ends)
        | _, _ => m

end Machine

end KeyLease.Lifecycle
