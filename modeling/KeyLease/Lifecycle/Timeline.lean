import KeyLease.Lifecycle.Machine

set_option autoImplicit false

/-!
# Scripted runs of a lifecycle

A timeline drives one lifecycle through a list of steps on a clock that only the steps move. A step
asks for a transition or a health check, in the foreground, so that time passes until it is over,
or in the background under a name by which it can be joined or dropped later.
-/

namespace KeyLease.Lifecycle

/-- What a task does. -/
inductive Work
  | transition (t : Transition)
  | health (limit : Duration)

/-- One step of a timeline. -/
inductive Step
  /-- Starts a task whose work takes `delay` milliseconds and gives `outcome`; under a name it runs
  in the background. -/
  | start (work : Work) (delay : Nat) (outcome : Except Failure Unit) (name : Option String)
  | join (name : String)
  | abort (name : String)
  | sleep (ms : Nat)
  | look
  | ensureConnected

/-- What a step answers: a result, or that the joined task had been dropped. -/
inductive Outcome
  | result (r : Except Failure Unit)
  | aborted

/-- A lifecycle with the names of its background tasks. -/
structure Timeline where
  machine : Machine := {}
  names : List (String × Nat) := []
  fresh : Nat := 0

namespace Timeline

/-- The end of a task as the answer of a step. -/
def outcome (m : Machine) (task : Nat) : Outcome :=
  match m.verdict? task with
  | some (.ended r) => .result r
  | some .dropped => .aborted
  | none => .result (.ok ())

/-- A task starts. -/
def launch (m : Machine) (task : Nat) (work : Work) (delay : Nat)
    (outcome : Except Failure Unit) : Machine :=
  match work with
  | .transition transition => m.request { task, transition, delay, outcome }
  | .health limit => m.check task limit delay outcome

/-- One step: its answer and the timeline after it. -/
def step (t : Timeline) : Step → Outcome × Timeline
  | .start work delay outcome name =>
      let m := launch t.machine t.fresh work delay outcome
      match name with
      | some name =>
          (.result (.ok ()),
            { machine := m, names := (name, t.fresh) :: t.names, fresh := t.fresh + 1 })
      | none =>
          let m := m.await t.fresh
          (Timeline.outcome m t.fresh, { t with machine := m, fresh := t.fresh + 1 })
  | .join name =>
      match t.names.lookup name with
      | some task =>
          let m := t.machine.await task
          (Timeline.outcome m task, { t with machine := m })
      | none => (.aborted, t)
  | .abort name =>
      match t.names.lookup name with
      | some task => (.result (.ok ()), { t with machine := t.machine.drop task })
      | none => (.result (.ok ()), t)
  | .sleep ms =>
      (.result (.ok ()), { t with machine := t.machine.passUntil (t.machine.now + ms) })
  | .look => (.result (.ok ()), t)
  | .ensureConnected => (.result t.machine.status.ensureConnected, t)

/-- What is seen after a step. -/
structure Sight where
  outcome : Outcome
  status : Status
  now : Nat

/-- The sights of a run, one for each step. -/
def run (t : Timeline) : List Step → List Sight
  | [] => []
  | s :: rest =>
      let (outcome, t) := t.step s
      ⟨outcome, t.machine.status, t.machine.now⟩ :: t.run rest

end Timeline

end KeyLease.Lifecycle
