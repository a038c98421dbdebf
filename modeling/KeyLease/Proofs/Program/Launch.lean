import KeyLease.Proofs.Program.Errand

set_option autoImplicit false

/-!
# Whole programs

A program reads its command line and its configuration and opens a store before it has an errand to
run. `Setup` is what it finds when it starts, `Program` where it stands, and `Setup.follow` what
becomes of it over a list of events. How stores are opened is part of the setup, so whatever is
proved here holds of stores of every behaviour.

Over any events a program stays accounted for (`Setup.accounted_run`), and from wherever it stands
it comes to an end if its store answers and time passes (`Setup.exists_end`).
-/

namespace KeyLease.CommandLine

/-- What a program finds when it starts, and how it opens a store. -/
structure Setup (σ : Type) where
  env : List (String × String)
  files : Files
  words : List String
  opener : Config → Nat → Except Failure σ

/-- Where a program stands. -/
inductive Program (σ : Type)
  | launching
  /-- It has ended before it had a store. -/
  | ended (e : Ending)
  | serving (s : Errand σ)

namespace Program

variable {σ : Type}

/-- How a program has ended, if it has. -/
def ending? : Program σ → Option Ending
  | .launching => none
  | .ended e => some e
  | .serving s => s.stage.ending?

/-- The exit status of a program that has ended. -/
def status? (p : Program σ) : Option Nat := p.ending?.map (·.status)

/-- The store of a program, once it is open. -/
def store? : Program σ → Option σ
  | .serving s => some s.store
  | _ => none

/-- What came of connecting, once that is known. -/
def connected? : Program σ → Option (Except Failure Unit)
  | .serving s => s.connected
  | _ => none

/-- Whether the command is under way. -/
def busy : Program σ → Bool
  | .serving s => s.stage.busy
  | _ => false

/-- Whether interrupts are listened for. -/
def listening : Program σ → Bool
  | .serving s => s.listening
  | _ => false

end Program

namespace Setup

variable {σ : Type} [LeaseStore σ]

/-- A program up to its errand. -/
def launch (u : Setup σ) : Program σ :=
  match Invocation.read u.env u.words with
  | .error e => .ended (.usage e)
  | .ok i =>
      match i.config u.files with
      | .error problem => .ended (.unconfigured problem)
      | .ok config =>
          match u.opener config i.poolSize with
          | .error f => .ended (.unconnected f)
          | .ok store => .serving (.ofStore config i.command store)

/-- One step. Nothing listens for an interrupt before there is an errand. -/
def step (u : Setup σ) : Program σ → Event σ → Program σ
  | .launching, .go => u.launch
  | .launching, .interrupt => .ended .killed
  | .serving s, e => .serving (s.step e)
  | p, _ => p

/-- One step after the other. -/
def follow (u : Setup σ) (p : Program σ) (events : List (Event σ)) : Program σ :=
  events.foldl u.step p

/-- A program from its start. -/
def run (u : Setup σ) (events : List (Event σ)) : Program σ := u.follow .launching events

theorem follow_append (u : Setup σ) (p : Program σ) (events more : List (Event σ)) :
    u.follow p (events ++ more) = u.follow (u.follow p events) more :=
  List.foldl_append

theorem follow_serving (u : Setup σ) (s : Errand σ) (events : List (Event σ)) :
    u.follow (.serving s) events = .serving (s.run events) := by
  induction events generalizing s with
  | nil => rfl
  | cons e rest ih => exact ih (s.step e)

/-- Every interrupt comes while someone listens. -/
def Heard (u : Setup σ) (p : Program σ) (events : List (Event σ)) : Prop :=
  ∀ n, events[n]? = some .interrupt → (u.follow p (events.take n)).listening = true

theorem heard_cons {u : Setup σ} {p : Program σ} {e : Event σ} {rest : List (Event σ)} :
    u.Heard p (e :: rest) ↔ (e = .interrupt → p.listening = true) ∧ u.Heard (u.step p e) rest :=
  Log.forall_getElem?_cons

theorem heard_serving {u : Setup σ} {s : Errand σ} {events : List (Event σ)} :
    u.Heard (.serving s) events ↔ s.Heard events := by
  refine forall_congr' fun n => ?_
  rw [follow_serving]
  exact Iff.rfl

/-! ## Launching -/

theorem launch_of_rejected {u : Setup σ} {e : UsageError}
    (hread : Invocation.read u.env u.words = .error e) : u.launch = .ended (.usage e) := by
  simp only [launch, hread]

theorem launch_of_unconfigured {u : Setup σ} {i : Invocation} {problem : ConfigProblem}
    (hread : Invocation.read u.env u.words = .ok i) (hconfig : i.config u.files = .error problem) :
    u.launch = .ended (.unconfigured problem) := by
  simp only [launch, hread, hconfig]

theorem launch_of_unopened {u : Setup σ} {i : Invocation} {config : Config} {f : Failure}
    (hread : Invocation.read u.env u.words = .ok i) (hconfig : i.config u.files = .ok config)
    (hopen : u.opener config i.poolSize = .error f) : u.launch = .ended (.unconnected f) := by
  simp only [launch, hread, hconfig, hopen]

theorem launch_of_opened {u : Setup σ} {i : Invocation} {config : Config} {store : σ}
    (hread : Invocation.read u.env u.words = .ok i) (hconfig : i.config u.files = .ok config)
    (hopen : u.opener config i.poolSize = .ok store) :
    u.launch = .serving (.ofStore config i.command store) := by
  simp only [launch, hread, hconfig, hopen]

/-- All that launching can come to. -/
theorem launch_cases (u : Setup σ) :
    (∃ e, Invocation.read u.env u.words = .error e ∧ u.launch = .ended (.usage e)) ∨
      ∃ i, Invocation.read u.env u.words = .ok i ∧
        ((∃ problem, i.config u.files = .error problem ∧
            u.launch = .ended (.unconfigured problem)) ∨
          ∃ config, i.config u.files = .ok config ∧
            ((∃ f, u.opener config i.poolSize = .error f ∧ u.launch = .ended (.unconnected f)) ∨
              ∃ store, u.opener config i.poolSize = .ok store ∧
                u.launch = .serving (.ofStore config i.command store))) := by
  cases hread : Invocation.read u.env u.words with
  | error e => exact Or.inl ⟨e, rfl, launch_of_rejected hread⟩
  | ok i =>
      refine Or.inr ⟨i, rfl, ?_⟩
      cases hconfig : i.config u.files with
      | error problem => exact Or.inl ⟨problem, rfl, launch_of_unconfigured hread hconfig⟩
      | ok config =>
          refine Or.inr ⟨config, rfl, ?_⟩
          cases hopen : u.opener config i.poolSize with
          | error f => exact Or.inl ⟨f, rfl, launch_of_unopened hread hconfig hopen⟩
          | ok store => exact Or.inr ⟨store, rfl, launch_of_opened hread hconfig hopen⟩

/-- All the ways in which a program ends before it has a store. -/
theorem launch_ended {u : Setup σ} {e : Ending} (h : u.launch = .ended e) :
    (∃ fault, e = .usage fault ∧ Invocation.read u.env u.words = .error fault) ∨
      ∃ i, Invocation.read u.env u.words = .ok i ∧
        ((∃ problem, e = .unconfigured problem ∧ i.config u.files = .error problem) ∨
          ∃ config f, e = .unconnected f ∧ i.config u.files = .ok config ∧
            u.opener config i.poolSize = .error f) := by
  rcases u.launch_cases with ⟨fault, hread, hl⟩ | ⟨i, hread, hrest⟩
  · cases hl.symm.trans h
    exact Or.inl ⟨fault, rfl, hread⟩
  refine Or.inr ⟨i, hread, ?_⟩
  rcases hrest with ⟨problem, hconfig, hl⟩ | ⟨config, hconfig, ⟨f, hopen, hl⟩ | ⟨store, -, hl⟩⟩
  · cases hl.symm.trans h
    exact Or.inl ⟨problem, rfl, hconfig⟩
  · cases hl.symm.trans h
    exact Or.inr ⟨config, f, rfl, hconfig, hopen⟩
  · cases hl.symm.trans h

/-! ## Accounts -/

/-- What can be said of a program wherever it stands. -/
def Accounted (u : Setup σ) : Program σ → Prop
  | .launching => True
  | .ended e => e = .killed ∨ u.launch = .ended e
  | .serving s =>
      ∃ i config store, Invocation.read u.env u.words = .ok i ∧ i.config u.files = .ok config ∧
        u.opener config i.poolSize = .ok store ∧ s.command = i.command ∧
        s.script = i.command.script config (LeaseStore.backend store) ∧ s.Accounted

theorem accounted_launch (u : Setup σ) : u.Accounted u.launch := by
  rcases u.launch_cases with ⟨e, -, hl⟩ | ⟨i, hread, ⟨problem, -, hl⟩ | ⟨config, hconfig, hrest⟩⟩
  · rw [hl]
    exact Or.inr hl
  · rw [hl]
    exact Or.inr hl
  · rcases hrest with ⟨f, -, hl⟩ | ⟨store, hopen, hl⟩
    · rw [hl]
      exact Or.inr hl
    · rw [hl]
      exact ⟨i, config, store, hread, hconfig, hopen, rfl, rfl, rfl, rfl⟩

theorem accounted_step {u : Setup σ} {p : Program σ} (h : u.Accounted p) (e : Event σ) :
    u.Accounted (u.step p e) := by
  cases p with
  | launching =>
      cases e with
      | go => exact u.accounted_launch
      | interrupt => exact Or.inl rfl
      | _ => exact h
  | ended _ => exact h
  | serving s =>
      obtain ⟨i, config, store, hread, hconfig, hopen, hcommand, hscript, hacc⟩ := h
      obtain ⟨hcommand', hscript'⟩ := s.step_frame e
      exact ⟨i, config, store, hread, hconfig, hopen, hcommand'.trans hcommand,
        hscript'.trans hscript, hacc.step e⟩

theorem accounted_follow {u : Setup σ} {p : Program σ} (h : u.Accounted p)
    (events : List (Event σ)) : u.Accounted (u.follow p events) := by
  induction events generalizing p with
  | nil => exact h
  | cons e rest ih => exact ih (accounted_step h e)

/-- Every program is accounted for at every moment. -/
theorem accounted_run (u : Setup σ) (events : List (Event σ)) : u.Accounted (u.run events) :=
  accounted_follow (p := .launching) trivial events

/-- The errand of an accepted command line is that of its command. -/
theorem serving_run {u : Setup σ} {i : Invocation} {events : List (Event σ)} {s : Errand σ}
    (hread : Invocation.read u.env u.words = .ok i) (h : u.run events = .serving s) :
    ∃ config store, i.config u.files = .ok config ∧ u.opener config i.poolSize = .ok store ∧
      s.command = i.command ∧ s.script = i.command.script config (LeaseStore.backend store) := by
  have hacc := u.accounted_run events
  rw [h] at hacc
  obtain ⟨i', config, store, hread', hconfig, hopen, hcommand, hscript, -⟩ := hacc
  cases hread.symm.trans hread'
  exact ⟨config, store, hconfig, hopen, hcommand, hscript⟩

/-! ## Progress -/

/-- A program that has begun comes to its end if its store answers and time passes. -/
theorem exists_end_follow (u : Setup σ) {p : Program σ} (h : p ≠ .launching) :
    ∃ more, (∀ e ∈ more, Event.IsCourse e) ∧ ((u.follow p more).ending?).isSome := by
  cases p with
  | launching => exact absurd rfl h
  | ended e => exact ⟨[], by simp, rfl⟩
  | serving s =>
      obtain ⟨more, hcourse, e, hend⟩ := s.comesToEnd
      refine ⟨more, hcourse, ?_⟩
      rw [follow_serving, Program.ending?, hend]
      rfl

theorem launch_ne_launching (u : Setup σ) : u.launch ≠ .launching := by
  unfold launch
  split
  · exact nofun
  · split
    · exact nofun
    · split <;> exact nofun

/-- Every program comes to its end if its store answers and time passes. -/
theorem exists_end (u : Setup σ) (events : List (Event σ)) :
    ∃ more, (∀ e ∈ more, Event.IsCourse e) ∧ ((u.run (events ++ more)).ending?).isSome := by
  unfold run
  by_cases hp : u.follow .launching events = .launching
  · obtain ⟨more, hcourse, hend⟩ := u.exists_end_follow u.launch_ne_launching
    refine ⟨.go :: more, ?_, ?_⟩
    · intro e he
      rcases List.mem_cons.mp he with rfl | he
      · trivial
      · exact hcourse e he
    · rw [follow_append, hp]
      exact hend
  · obtain ⟨more, hcourse, hend⟩ := u.exists_end_follow hp
    exact ⟨more, hcourse, by rw [follow_append]; exact hend⟩

end Setup

end KeyLease.CommandLine
