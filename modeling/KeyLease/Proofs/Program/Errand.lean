import KeyLease.CommandLine.Program
import KeyLease.Proofs.Log

set_option autoImplicit false

/-!
# The program step by step

`CommandLine.run` tells how a run ends when an interrupt comes at one of a few moments. Here the
program is cut into its steps, so that an interrupt may come between any two of them, every answer
may take any time, and anything may happen to the store meanwhile.

An `Errand` is what a program does once its store is open: it connects, carries out the script of
its command and disconnects. It notes what it is told (`exchanges`). An interrupt kills it as long
as nothing listens; from the first moment that something listens it never does. A command that does
not listen itself is listened for from some moment after it has begun, and an interrupt aborts it; a
lock that is held listens when the wait is first looked at, and an interrupt cuts the wait short.

`Errand.Accounted` says how far the script has come at each stage, and every step keeps it
(`Errand.Accounted.step`).
-/

namespace KeyLease

/-- The exchanges, calls with their answers, over which a script comes to a point. A wait is no
exchange. -/
inductive Script.Reaches {α : Type} (s : Script α) : List (Call × Answer) → Script α → Prop
  | start : Reaches s [] s
  | answered {exchanges : List (Call × Answer)} {c : Call} {next : Answer → Script α}
      (h : Reaches s exchanges (.call c next)) (a : Answer) :
      Reaches s (exchanges ++ [(c, a)]) (next a)
  | waited {exchanges : List (Call × Answer)} {d : Duration} {next : Script α}
      (h : Reaches s exchanges (.hold d next)) : Reaches s exchanges next

namespace CommandLine

/-! ## Errands -/

/-- Where an errand stands. -/
inductive Stage
  | opened
  /-- The store has been asked to connect. -/
  | connecting
  /-- The command goes on with this. -/
  | ready (rest : Script (Except Failure String))
  /-- A call is on its way to the store. -/
  | asking (c : Call) (next : Answer → Script (Except Failure String))
  /-- The store has carried a call out, and the answer is on its way. -/
  | answered (c : Call) (a : Answer) (next : Answer → Script (Except Failure String))
  /-- The clock of a wait runs, with so much left, and nobody has looked at it yet. -/
  | arming (left : Nat) (rest : Script (Except Failure String))
  /-- A wait with so much left. -/
  | holding (left : Nat) (rest : Script (Except Failure String))
  /-- The command is over, and the store is still connected. -/
  | closing (e : Ending)
  /-- The store has been asked to disconnect. -/
  | disconnecting (e : Ending)
  | ended (e : Ending)

namespace Stage

/-- Whether the command is under way. -/
def busy : Stage → Bool
  | .ready _ | .asking _ _ | .answered _ _ _ | .arming _ _ | .holding _ _ => true
  | _ => false

/-- How the errand has ended, if it is over. -/
def ending? : Stage → Option Ending
  | .ended e => some e
  | _ => none

/-- The stage after some time: waits grow shorter. -/
def elapse (d : Duration) : Stage → Stage
  | .arming left rest => .arming (left - d.nanos) rest
  | .holding left rest => .holding (left - d.nanos) rest
  | stage => stage

end Stage

/-- A command on its way, with the store that it is carried out on. -/
structure Errand (σ : Type) where
  command : Command
  script : Script (Except Failure String)
  store : σ
  stage : Stage := .opened
  /-- What came of connecting, once that is known. -/
  connected : Option (Except Failure Unit) := none
  /-- Whether interrupts are listened for. -/
  listening : Bool := false
  exchanges : List (Call × Answer) := []

/-- What can happen next. -/
inductive Event (σ : Type)
  /-- The program goes on to where it has to wait next. -/
  | go
  /-- The store carries out what it has been asked for. -/
  | carryOut
  /-- Interrupts are listened for while a command is under way that does not listen itself. -/
  | listen
  /-- A wait is first looked at when it is over, and ends without anyone listening. -/
  | slip
  | interrupt
  | elapse (d : Duration)
  /-- Something else happens to the store. -/
  | stir (f : σ → σ)

/-- What happens of itself: the program goes on, its store carries out what it is asked for, and
time passes. -/
def Event.IsCourse {σ : Type} : Event σ → Prop
  | .go | .carryOut | .elapse _ => True
  | _ => False

/-- Nothing else happens to the store than what it is asked for, and that time passes. -/
def Event.IsOwn {σ : Type} : Event σ → Prop
  | .stir _ => False
  | _ => True

namespace Errand

variable {σ : Type}

/-- The errand of a command on a store that has just been opened. -/
def ofStore [LeaseStore σ] (config : Config) (command : Command) (store : σ) : Errand σ :=
  { command, script := command.script config (LeaseStore.backend store), store }

/-- The program goes on. Whoever has to wait for the store stays where he is. -/
def go (s : Errand σ) : Errand σ :=
  match s.stage with
  | .opened => { s with stage := .connecting }
  | .ready (.done r) => { s with stage := .closing (.finished r) }
  | .ready (.call c next) => { s with stage := .asking c next }
  | .ready (.hold d rest) => { s with stage := .arming d.nanos rest }
  | .answered c a next =>
      { s with stage := .ready (next a), exchanges := s.exchanges ++ [(c, a)] }
  | .arming left rest => { s with stage := .holding left rest, listening := true }
  | .holding 0 rest => { s with stage := .ready rest }
  | .closing e => { s with stage := .disconnecting e }
  | _ => s

/-- The store carries out what it has been asked for. -/
def carryOut [LeaseStore σ] (s : Errand σ) : Errand σ :=
  match s.stage with
  | .connecting =>
      match LeaseStore.connect s.store with
      | (.ok (), store) =>
          { s with store, connected := some (.ok ()), stage := .ready s.script }
      | (.error f, store) =>
          { s with store, connected := some (.error f), stage := .ended (.unconnected f) }
  | .asking c next =>
      let (answer, store) := LeaseStore.perform c s.store
      { s with store, stage := .answered c answer next }
  | .disconnecting e =>
      { s with store := (LeaseStore.disconnect s.store).2, stage := .ended e }
  | _ => s

/-- Someone listens for the command, if it does not listen itself. -/
def listen (s : Errand σ) : Errand σ :=
  if s.stage.busy ∧ ¬ s.command.handlesInterrupt then { s with listening := true } else s

/-- A wait that is over ends unseen. -/
def slip (s : Errand σ) : Errand σ :=
  match s.stage with
  | .arming 0 rest => { s with stage := .ready rest }
  | _ => s

/-- An interrupt that is heard: a command that does not listen itself is aborted, and the wait of
one that does is cut short. -/
def hear (s : Errand σ) : Errand σ :=
  if s.stage.busy ∧ ¬ s.command.handlesInterrupt then { s with stage := .closing .aborted }
  else
    match s.stage with
    | .holding _ rest => { s with stage := .ready rest }
    | _ => s

/-- An interrupt. -/
def interrupt (s : Errand σ) : Errand σ :=
  match s.stage with
  | .ended _ => s
  | _ => if s.listening then s.hear else { s with stage := .ended .killed }

/-- One step. -/
def step [LeaseStore σ] (s : Errand σ) : Event σ → Errand σ
  | .go => s.go
  | .carryOut => s.carryOut
  | .listen => s.listen
  | .slip => s.slip
  | .interrupt => s.interrupt
  | .elapse d => { s with store := LeaseStore.pass d s.store, stage := s.stage.elapse d }
  | .stir f => { s with store := f s.store }

/-- One step after the other. -/
def run [LeaseStore σ] (s : Errand σ) (events : List (Event σ)) : Errand σ := events.foldl step s

theorem run_append [LeaseStore σ] (s : Errand σ) (events more : List (Event σ)) :
    s.run (events ++ more) = (s.run events).run more :=
  List.foldl_append

/-- Every interrupt comes while someone listens. -/
def Heard [LeaseStore σ] (s : Errand σ) (events : List (Event σ)) : Prop :=
  ∀ n, events[n]? = some .interrupt → (s.run (events.take n)).listening = true

theorem heard_of_notMem [LeaseStore σ] {s : Errand σ} {events : List (Event σ)}
    (h : .interrupt ∉ events) : s.Heard events :=
  fun _ hn => absurd (List.mem_of_getElem? hn) h

theorem heard_cons [LeaseStore σ] {s : Errand σ} {e : Event σ} {rest : List (Event σ)} :
    s.Heard (e :: rest) ↔ (e = .interrupt → s.listening = true) ∧ (s.step e).Heard rest :=
  Log.forall_getElem?_cons

theorem Heard.append [LeaseStore σ] {s : Errand σ} {before events : List (Event σ)}
    (hbefore : s.Heard before) (hevents : (s.run before).Heard events) :
    s.Heard (before ++ events) := by
  induction before generalizing s with
  | nil => exact hevents
  | cons e rest ih =>
      obtain ⟨hfirst, hrest⟩ := heard_cons.mp hbefore
      exact heard_cons.mpr ⟨hfirst, ih hrest hevents⟩

/-- The command and its script never change. -/
theorem step_frame [LeaseStore σ] (s : Errand σ) (e : Event σ) :
    (s.step e).command = s.command ∧ (s.step e).script = s.script := by
  cases e with
  | go =>
      simp only [step, go]
      split <;> exact ⟨rfl, rfl⟩
  | carryOut =>
      simp only [step, carryOut]
      split
      · split <;> exact ⟨rfl, rfl⟩
      · exact ⟨rfl, rfl⟩
      · exact ⟨rfl, rfl⟩
      · exact ⟨rfl, rfl⟩
  | listen =>
      simp only [step, listen]
      split <;> exact ⟨rfl, rfl⟩
  | slip =>
      simp only [step, slip]
      split <;> exact ⟨rfl, rfl⟩
  | interrupt =>
      simp only [step, interrupt, hear]
      split
      · exact ⟨rfl, rfl⟩
      · split
        · split
          · exact ⟨rfl, rfl⟩
          · split <;> exact ⟨rfl, rfl⟩
        · exact ⟨rfl, rfl⟩
  | elapse d => exact ⟨rfl, rfl⟩
  | stir f => exact ⟨rfl, rfl⟩

/-- An errand that is over stays so. -/
theorem step_of_ended [LeaseStore σ] {s : Errand σ} {ending : Ending} (h : s.stage = .ended ending)
    (e : Event σ) : (s.step e).stage = .ended ending := by
  rcases s with ⟨command, script, store, stage, connected, listening, exchanges⟩
  cases h
  cases e <;> rfl

/-- Only the store itself, time and others change the store. -/
theorem step_store [LeaseStore σ] (s : Errand σ) {e : Event σ}
    (h : e = .go ∨ e = .listen ∨ e = .slip ∨ e = .interrupt) : (s.step e).store = s.store := by
  rcases h with rfl | rfl | rfl | rfl
  · simp only [step, go]
    split <;> rfl
  · simp only [step, listen]
    split <;> rfl
  · simp only [step, slip]
    split <;> rfl
  · simp only [step, interrupt, hear]
    split
    · rfl
    · split
      · split
        · rfl
        · split <;> rfl
      · rfl

/-- Whoever has begun to listen goes on listening. -/
theorem listening_step [LeaseStore σ] {s : Errand σ} (h : s.listening = true) (e : Event σ) :
    (s.step e).listening = true := by
  cases e with
  | go =>
      simp only [step, go]
      split <;> first | exact h | rfl
  | carryOut =>
      simp only [step, carryOut]
      split
      · split <;> exact h
      · exact h
      · exact h
      · exact h
  | listen =>
      simp only [step, listen]
      split
      · rfl
      · exact h
  | slip =>
      simp only [step, slip]
      split <;> exact h
  | interrupt =>
      simp only [step, interrupt, hear]
      split
      · exact h
      · rw [if_pos h]
        split
        · exact h
        · split <;> exact h
  | elapse d => exact h
  | stir f => exact h

/-! ## Accounts -/

/-- How a command comes to its end that has been told this. One that is finished has come to the end
of its script by it. One that is aborted does not listen itself, and has come somewhere. -/
def Concludes (s : Errand σ) (told : List (Call × Answer)) : Ending → Prop
  | .finished r => s.script.Reaches told (.done r)
  | .aborted => s.command.handlesInterrupt = false ∧ ∃ rest, s.script.Reaches told rest
  | _ => False

/-- How far the script has come at each stage. Nothing is said of a program that was killed. -/
def Accounted (s : Errand σ) : Prop :=
  match s.stage with
  | .opened | .connecting => s.connected = none ∧ s.exchanges = []
  | .ready rest | .arming _ rest | .holding _ rest =>
      s.connected = some (.ok ()) ∧ s.script.Reaches s.exchanges rest
  | .asking c next | .answered c _ next =>
      s.connected = some (.ok ()) ∧ s.script.Reaches s.exchanges (.call c next)
  | .ended (.unconnected f) => s.connected = some (.error f)
  | .ended .killed => True
  | .closing e | .disconnecting e | .ended e =>
      s.connected = some (.ok ()) ∧ s.Concludes s.exchanges e

variable {s : Errand σ}

theorem Accounted.go (h : s.Accounted) : s.go.Accounted := by
  rcases s with ⟨command, script, store, stage, connected, listening, exchanges⟩
  cases stage with
  | ready rest =>
      cases rest with
      | hold d rest => exact ⟨h.1, h.2.waited⟩
      | _ => exact h
  | answered c a next => exact ⟨h.1, h.2.answered a⟩
  | holding left rest => cases left <;> exact h
  | _ => exact h

theorem Accounted.carryOut [LeaseStore σ] (h : s.Accounted) : s.carryOut.Accounted := by
  rcases s with ⟨command, script, store, stage, connected, listening, exchanges⟩
  cases stage with
  | connecting =>
      obtain ⟨-, hnone⟩ := h
      simp only [Errand.carryOut]
      split
      · subst hnone
        exact ⟨rfl, .start⟩
      · rfl
  | disconnecting e =>
      cases e with
      | finished r => exact h
      | aborted => exact h
      | _ => exact h.2.elim
  | _ => exact h

theorem Accounted.slip (h : s.Accounted) : s.slip.Accounted := by
  rcases s with ⟨command, script, store, stage, connected, listening, exchanges⟩
  cases stage with
  | arming left rest => cases left <;> exact h
  | _ => exact h

theorem Accounted.hear (h : s.Accounted) : s.hear.Accounted := by
  rcases s with ⟨command, script, store, stage, connected, listening, exchanges⟩
  unfold Errand.hear
  split
  · -- The command is aborted, wherever it stands.
    rename_i habort
    have hdeaf : command.handlesInterrupt = false := by simpa using habort.2
    cases stage with
    | ready _ | asking _ _ | answered _ _ _ | arming _ _ | holding _ _ =>
        exact ⟨h.1, hdeaf, _, h.2⟩
    | _ => simp [Stage.busy] at habort
  · cases stage <;> exact h

theorem Accounted.interrupt (h : s.Accounted) : s.interrupt.Accounted := by
  unfold Errand.interrupt
  split
  · exact h
  · split
    · exact h.hear
    · trivial

/-- Every step keeps the account. -/
theorem Accounted.step [LeaseStore σ] (h : s.Accounted) (e : Event σ) : (s.step e).Accounted := by
  cases e with
  | go => exact h.go
  | carryOut => exact h.carryOut
  | listen =>
      simp only [Errand.step, Errand.listen]
      split <;> exact h
  | slip => exact h.slip
  | interrupt => exact h.interrupt
  | elapse d =>
      rcases s with ⟨command, script, store, stage, connected, listening, exchanges⟩
      cases stage <;> exact h
  | stir f => exact h

/-- What an errand has come to that is over and was not killed. -/
theorem Accounted.ended {e : Ending} (h : s.Accounted) (hstage : s.stage = .ended e)
    (hkilled : e ≠ .killed) :
    (∃ f, e = .unconnected f ∧ s.connected = some (.error f)) ∨
      s.connected = some (.ok ()) ∧ s.Concludes s.exchanges e := by
  simp only [Accounted, hstage] at h
  cases e with
  | unconnected f => exact Or.inl ⟨f, rfl, h⟩
  | killed => exact absurd rfl hkilled
  | _ => exact Or.inr h

/-! ## Progress -/

section

variable [LeaseStore σ]

/-- From here the errand comes to its end of itself. -/
def ComesToEnd (s : Errand σ) : Prop :=
  ∃ events, (∀ e ∈ events, Event.IsCourse e) ∧ ∃ e, (s.run events).stage = .ended e

theorem ComesToEnd.of_step {s : Errand σ} {e : Event σ} (he : Event.IsCourse e)
    (h : (s.step e).ComesToEnd) : s.ComesToEnd := by
  obtain ⟨events, hall, hend⟩ := h
  refine ⟨e :: events, ?_, hend⟩
  intro d hd
  rcases List.mem_cons.mp hd with rfl | hd
  · exact he
  · exact hall d hd

theorem comesToEnd_of_ended {s : Errand σ} {e : Ending} (h : s.stage = .ended e) : s.ComesToEnd :=
  ⟨[], by simp, e, h⟩

theorem comesToEnd_of_disconnecting {s : Errand σ} {e : Ending} (h : s.stage = .disconnecting e) :
    s.ComesToEnd := by
  refine .of_step (e := .carryOut) trivial (comesToEnd_of_ended (e := e) ?_)
  simp only [step, carryOut, h]

theorem comesToEnd_of_closing {s : Errand σ} {e : Ending} (h : s.stage = .closing e) :
    s.ComesToEnd := by
  refine .of_step (e := .go) trivial (comesToEnd_of_disconnecting (e := e) ?_)
  simp only [step, go, h]

/-- A command that is ready to go on comes to its end, call by call and wait by wait. -/
theorem comesToEnd_of_ready (rest : Script (Except Failure String)) {s : Errand σ}
    (h : s.stage = .ready rest) : s.ComesToEnd := by
  induction rest generalizing s with
  | done r =>
      refine .of_step (e := .go) trivial (comesToEnd_of_closing (e := .finished r) ?_)
      simp only [step, go, h]
  | call c next ih =>
      refine .of_step (e := .go) trivial (.of_step (e := .carryOut) trivial
        (.of_step (e := .go) trivial (ih (LeaseStore.perform c s.store).1 ?_)))
      simp only [step, go, carryOut, h]
  | hold d rest ih =>
      refine .of_step (e := .go) trivial (.of_step (e := .go) trivial
        (.of_step (e := .elapse d) trivial (.of_step (e := .go) trivial (ih ?_))))
      simp only [step, go, h, Stage.elapse, Nat.sub_self]

theorem comesToEnd_of_holding (left : Nat) (rest : Script (Except Failure String)) {s : Errand σ}
    (h : s.stage = .holding left rest) : s.ComesToEnd := by
  refine .of_step (e := .elapse ⟨left⟩) trivial (.of_step (e := .go) trivial
    (comesToEnd_of_ready rest ?_))
  simp only [step, go, h, Stage.elapse, Nat.sub_self]

theorem comesToEnd_of_connecting {s : Errand σ} (h : s.stage = .connecting) : s.ComesToEnd := by
  refine .of_step (e := .carryOut) trivial ?_
  rcases hres : LeaseStore.connect s.store with ⟨f | _, store⟩
  · refine comesToEnd_of_ended (e := .unconnected f) ?_
    simp only [step, carryOut, h, hres]
  · refine comesToEnd_of_ready s.script ?_
    simp only [step, carryOut, h, hres]

/-- Every errand comes to its end if its store answers and time passes. -/
theorem comesToEnd (s : Errand σ) : s.ComesToEnd := by
  cases hstage : s.stage with
  | opened =>
      refine .of_step (e := .go) trivial (comesToEnd_of_connecting ?_)
      simp only [step, go, hstage]
  | connecting => exact comesToEnd_of_connecting hstage
  | ready rest => exact comesToEnd_of_ready rest hstage
  | asking c next =>
      refine .of_step (e := .carryOut) trivial (.of_step (e := .go) trivial
        (comesToEnd_of_ready (next (LeaseStore.perform c s.store).1) ?_))
      simp only [step, go, carryOut, hstage]
  | answered c a next =>
      refine .of_step (e := .go) trivial (comesToEnd_of_ready (next a) ?_)
      simp only [step, go, hstage]
  | arming left rest =>
      refine .of_step (e := .go) trivial (comesToEnd_of_holding left rest ?_)
      simp only [step, go, hstage]
  | holding left rest => exact comesToEnd_of_holding left rest hstage
  | closing e => exact comesToEnd_of_closing hstage
  | disconnecting e => exact comesToEnd_of_disconnecting hstage
  | ended e => exact comesToEnd_of_ended hstage

end

end Errand

end CommandLine

end KeyLease
