import KeyLease.Proofs.Lifecycle.Course
import KeyLease.Proofs.Memory.Calls

set_option autoImplicit false

/-!
# A memory store that many tasks use

The calls of a memory store take several steps, and the steps of other tasks may come between them.
An attempt to acquire first looks whether the store is connected and then sets the lease, without
looking again. To connect is to wait for a turn and then for the place in which the sweep is kept.
To disconnect is to wait for a turn, to show that the session is over, to wait for that place and
for the sweep to end, and only then to drop the leases. Whoever waits may be dropped.

`Shared` cuts the calls at these steps. Without others between them the steps are the calls of the
store: `Shared.run_connect`, `Shared.run_disconnect` and `Shared.run_tryAcquire`.
-/

namespace KeyLease.Memory

open Lifecycle (Machine Request Transition Turn)

namespace Store

/-- The first half of an attempt to acquire: whether it is let through. -/
def admits (s : Store) (key : String) (ttl : Duration) : Except Failure Unit :=
  match ensureKey key, ensureTtl ttl, s.status.ensureConnected with
  | .error e, _, _ => .error e
  | _, .error e, _ => .error e
  | _, _, connected => connected

/-- The second half, which takes the store to be connected still. -/
def enter (s : Store) (key : String) (ttl : Duration) : Answer × Store :=
  let (answer, after) := { s with status := .connected }.tryAcquire key ttl
  (answer, { after with status := s.status })

/-- The two halves are the whole. -/
theorem tryAcquire_eq (s : Store) (key : String) (ttl : Duration) :
    s.tryAcquire key ttl =
      match s.admits key ttl with
      | .error e => (.error e, s)
      | .ok () => s.enter key ttl := by
  unfold admits enter tryAcquire
  cases hkey : ensureKey key with
  | error e => rfl
  | ok _ =>
      cases httl : ensureTtl ttl with
      | error e => rfl
      | ok _ =>
          cases hst : s.status with
          | connected =>
              simp only [Status.ensureConnected, expiryAfter?]
              split
              · rw [← hst]
              · rfl
          | uninitialized => rfl
          | disconnected => rfl

end Store

/-- Where the call that has the turn stands. -/
inductive Stage
  /-- At the place in which the sweep is kept, for which it may have to wait. -/
  | entered
  /-- Waiting for the sweep to end. -/
  | stopping
  /-- About to drop the leases. -/
  | clearing
  /-- About to return. -/
  | done
  deriving DecidableEq

/-- A call can be dropped where it waits. -/
def Stage.waits : Stage → Bool
  | .entered | .stopping => true
  | .clearing | .done => false

/-- A memory store with the calls under way: who asks for its transitions, where the one that has
the turn stands, which attempts to acquire have been let through, and what attempts were told. -/
structure Shared where
  store : Store := {}
  lifecycle : Machine := {}
  stage : Stage := .entered
  admitted : List (String × Duration) := []
  answers : List Answer := []

/-- One step of some call, or of something beside the calls. -/
inductive Step
  | ask (task : Nat) (transition : Transition)
  /-- The call in front gets its turn. -/
  | take
  /-- The call that has the turn goes on. -/
  | proceed
  /-- The call of a task is dropped, if it waits. -/
  | drop (task : Nat)
  /-- An attempt to acquire is let through or refused. -/
  | check (key : String) (ttl : Duration)
  /-- An attempt that was let through sets its lease. -/
  | enter (i : Nat)
  /-- The second half of a release. -/
  | remove (key : String)
  /-- A sweep, in the background or not. -/
  | sweep
  | elapse (d : Duration)

namespace Shared

/-- A store with a clock and maybe a sweep, not yet connected. -/
def fresh (sweepInterval : Option Duration) (now clockEnd : Nat) : Shared :=
  { store := { now, clockEnd, sweepInterval } }

/-- The store shows what its lifecycle shows. -/
def follow (s : Shared) (m : Machine) : Shared :=
  { s with lifecycle := m, store := { s.store with status := m.status } }

/-- A call asks for a transition, whose work always succeeds. -/
def request (task : Nat) (transition : Transition) : Request :=
  { task, transition, delay := 0, outcome := .ok () }

/-- The call that has the turn goes on by one step. -/
def proceed (s : Shared) : Shared :=
  match s.lifecycle.turn with
  | none => s
  | some t =>
      match t.request.transition, s.stage with
      | .connect, .entered =>
          let sweeper := s.store.sweepInterval.bind (Sweeper.start? · s.store.now)
          { s with store := { s.store with sweeper }, stage := .done }
      | .disconnect, .entered =>
          let stage := if s.store.sweepInterval.isSome then .stopping else .clearing
          { s with store := { s.store with sweeper := none }, stage }
      | .disconnect, .stopping => { s with stage := .clearing }
      | .disconnect, .clearing => { s with store := { s.store with leases := {} }, stage := .done }
      | _, _ => s.follow s.lifecycle.complete

/-- One step. -/
def step (s : Shared) : Step → Shared
  | .ask task transition => s.follow (s.lifecycle.ask (request task transition))
  | .take =>
      match s.lifecycle.turn with
      | none => { s.follow s.lifecycle.take with stage := .entered }
      | some _ => s
  | .proceed => s.proceed
  | .drop task =>
      if s.lifecycle.turn.any (·.request.task = task) ∧ !s.stage.waits then s
      else s.follow (s.lifecycle.cancel task)
  | .check key ttl =>
      match s.store.admits key ttl with
      | .ok () => { s with admitted := s.admitted ++ [(key, ttl)] }
      | .error e => { s with answers := s.answers ++ [.error e] }
  | .enter i =>
      match s.admitted[i]? with
      | none => s
      | some (key, ttl) =>
          let (answer, store) := s.store.enter key ttl
          { s with store, admitted := s.admitted.eraseIdx i, answers := s.answers ++ [answer] }
  | .remove key => { s with store := { s.store with leases := s.store.leases.erase key } }
  | .sweep => { s with store := (s.store.sweep).2 }
  | .elapse d => { s with store := { s.store with now := s.store.now + d.nanos } }

/-- One step after the other. -/
def run (s : Shared) (steps : List Step) : Shared := steps.foldl step s

/-! ## Calls without others between their steps -/

/-- Nobody has the turn and nobody waits, and the store shows what its lifecycle shows. -/
structure Quiet (s : Shared) : Prop where
  turn : s.lifecycle.turn = none
  waiting : s.lifecycle.waiting = []
  guarded : s.lifecycle.guarded = s.store.status
  status : s.lifecycle.status = s.store.status

/-- The result that a lifecycle has told last. -/
def lastEvent? (s : Shared) : Option Lifecycle.Event := s.lifecycle.log.getLast?.map (·.event)

/-- What a lone call leaves behind when it gets its turn. -/
theorem Quiet.take_ask {s : Shared} (hq : s.Quiet) (task : Nat) (transition : Transition) :
    (s.step (.ask task transition)).step .take =
      { s.follow ({ s.lifecycle with waiting := [request task transition] } : Machine).take with
        stage := .entered } := by
  have hwaiting : s.lifecycle.waiting ++ [request task transition] = [request task transition] := by
    rw [hq.waiting, List.nil_append]
  simp only [step, follow, Machine.ask, hq.turn, hwaiting]

/-- Connecting, with no other call about. -/
theorem run_connect {s : Shared} (hq : s.Quiet) (task : Nat) :
    let s' := s.run [.ask task .connect, .take, .proceed, .proceed]
    s'.store = s.store.connect.2 ∧ s'.lastEvent? = some (.ended s.store.connect.1) ∧ s'.Quiet := by
  intro s'
  have hrun : s' = (((s.step (.ask task .connect)).step .take).step .proceed).step .proceed := rfl
  obtain ⟨hturn, hwaiting, hguarded, hstatus⟩ := id hq
  rw [hq.take_ask] at hrun
  by_cases hst : s.store.status = .connected
  · -- Refused: nobody has the turn, and nothing goes on.
    rw [hrun]
    refine ⟨?_, ?_, ?_, ?_, ?_, ?_⟩ <;>
      simp [step, follow, request, Machine.take, Machine.refusal?, proceed, Store.connect,
        Status.connect, lastEvent?, hturn, hguarded, hstatus, hst]
  · have hopens : s.store.status.connect (.ok ()) = (.ok (), .connected) := by
      cases hcase : s.store.status with
      | connected => exact absurd hcase hst
      | uninitialized => rfl
      | disconnected => rfl
    rw [hrun]
    refine ⟨?_, ?_, ?_, ?_, ?_, ?_⟩ <;>
      simp [step, follow, request, Machine.take, Machine.refusal?, proceed, Machine.begin,
        Machine.complete, Machine.finish, Machine.publish, Store.connect, lastEvent?, hturn,
        hguarded, hopens, hst]

/-- Disconnecting, with no other call about. The last step is for a store that has a sweep to wait
for. -/
theorem run_disconnect {s : Shared} (hq : s.Quiet) (task : Nat) :
    let s' := s.run [.ask task .disconnect, .take, .proceed, .proceed, .proceed, .proceed]
    s'.store = s.store.disconnect.2 ∧ s'.lastEvent? = some (.ended s.store.disconnect.1) ∧
      s'.Quiet := by
  intro s'
  have hrun : s' = (((((s.step (.ask task .disconnect)).step .take).step .proceed).step
    .proceed).step .proceed).step .proceed := rfl
  obtain ⟨hturn, hwaiting, hguarded, hstatus⟩ := id hq
  rw [hq.take_ask] at hrun
  by_cases hst : s.store.status = .connected
  · -- Without a sweep to wait for the call has returned one step earlier, and the last does nothing.
    rw [hrun]
    cases hinterval : s.store.sweepInterval <;> refine ⟨?_, ?_, ?_, ?_, ?_, ?_⟩ <;>
      simp [step, follow, request, Machine.take, Machine.refusal?, proceed, Machine.begin,
        Machine.complete, Machine.finish, Machine.publish, Store.disconnect, Status.disconnect,
        lastEvent?, hturn, hguarded, hst, hinterval]
  · have hrefused :
        s.store.status.disconnect (.ok ()) = (.error .notConnected, s.store.status) := by
      cases hcase : s.store.status with
      | connected => exact absurd hcase hst
      | uninitialized => rfl
      | disconnected => rfl
    rw [hrun]
    refine ⟨?_, ?_, ?_, ?_, ?_, ?_⟩ <;>
      simp [step, follow, request, Machine.take, Machine.refusal?, proceed, Store.disconnect,
        lastEvent?, hturn, hguarded, hstatus, hrefused, hst]

/-- Acquiring, with no other attempt about. -/
theorem run_tryAcquire {s : Shared} (hnone : s.admitted = []) (key : String) (ttl : Duration) :
    let s' := s.run [.check key ttl, .enter 0]
    s'.store = (s.store.tryAcquire key ttl).2 ∧
      s'.answers = s.answers ++ [(s.store.tryAcquire key ttl).1] ∧ s'.admitted = [] := by
  intro s'
  have hrun : s' = (s.step (.check key ttl)).step (.enter 0) := rfl
  rw [hrun, Store.tryAcquire_eq]
  cases hadmits : s.store.admits key ttl with
  | error e => simp [step, hadmits, hnone]
  | ok _ => simp [step, hadmits, hnone]

end Shared

end KeyLease.Memory
