import KeyLease.Proofs.Program.Moments

set_option autoImplicit false

/-!
# The status that tells contention

A program exits with 2 if its command has come to contention on a connected store, and if its
command line was not carried out. Nothing else exits with 2, but the two cannot be told apart
(`exit_two_tells`).
-/

namespace KeyLease

theorem Failure.isContention_iff {f : Failure} :
    f.isContention = true ↔ ∃ key, f = .alreadyLocked key ∨ f = .conflict key := by
  cases f <;> simp [isContention]

namespace CommandLine

/-! ## Statuses -/

namespace Ending

theorem status_eq_two_iff {e : Ending} :
    e.status = 2 ↔ (∃ fault, e = .usage fault ∧ fault ≠ .help) ∨
      ∃ f, e = .finished (.error f) ∧ ∃ key, f = .alreadyLocked key ∨ f = .conflict key := by
  cases e with
  | usage fault => cases fault <;> simp [status]
  | finished result =>
      rcases result with f | message
      · cases hf : f.isContention <;> simp [status, ← Failure.isContention_iff, hf]
      · simp [status]
  | _ => simp [status]

theorem status_eq_130_iff {e : Ending} : e.status = 130 ↔ e = .aborted ∨ e = .killed := by
  cases e with
  | usage fault => cases fault <;> simp [status]
  | finished result =>
      rcases result with f | message
      · cases hf : f.isContention <;> simp [status, hf]
      · simp [status]
  | _ => simp [status]

/-- Whatever is not a command's success says nothing on the standard output and does not exit with
status 0, requests for help apart. -/
theorem silent_of_ne {e : Ending} (hhelp : e ≠ .usage .help)
    (hfail : ∀ message, e ≠ .finished (.ok message)) (usage : String) :
    e.output usage = "" ∧ e.status ≠ 0 := by
  cases e with
  | usage fault => cases fault <;> simp_all [output, status]
  | finished result =>
      rcases result with f | message
      · cases hf : f.isContention <;> simp [output, status, hf]
      · exact absurd rfl (hfail message)
  | _ => simp [output, status]

end Ending

/-! ## Ends -/

namespace Setup

variable {σ : Type} [LeaseStore σ]

/-- All the ways in which a program ends. -/
theorem ended_cases (u : Setup σ) {events : List (Event σ)} {e : Ending}
    (h : (u.run events).ending? = some e) :
    e = .killed ∨ u.run events = .ended e ∧ u.launch = .ended e ∨
      ∃ s, u.run events = .serving s ∧ s.stage = .ended e ∧
        ((∃ f, e = .unconnected f ∧ s.connected = some (.error f)) ∨
          s.connected = some (.ok ()) ∧ s.Concludes s.exchanges e) := by
  have hacc := u.accounted_run events
  by_cases hkilled : e = .killed
  · exact Or.inl hkilled
  refine Or.inr ?_
  cases hp : u.run events with
  | launching =>
      rw [hp] at h
      cases h
  | ended e' =>
      rw [hp] at h hacc
      cases h
      rcases hacc with hkilled' | hlaunch
      · exact absurd hkilled' hkilled
      · exact Or.inl ⟨rfl, hlaunch⟩
  | serving s =>
      rw [hp] at h hacc
      obtain ⟨-, -, -, -, -, -, -, -, hacc⟩ := hacc
      have hstage : s.stage = .ended e := by
        simp only [Program.ending?] at h
        cases hstage : s.stage <;> simp_all [Stage.ending?]
      exact Or.inr ⟨s, rfl, hstage, hacc.ended hstage hkilled⟩

/-! ## The status of contention -/

/-- The command of a program has been carried out on a connected store, and its script has come to
contention by the answers of that store. -/
structure Contends (u : Setup σ) (s : Errand σ) (f : Failure) : Prop where
  carried : ∃ i config opened, Invocation.read u.env u.words = .ok i ∧
    i.config u.files = .ok config ∧ u.opener config i.poolSize = .ok opened ∧
      s.script = i.command.script config (LeaseStore.backend opened)
  connected : s.connected = some (.ok ())
  ended : s.stage = .ended (.finished (.error f))
  reached : s.script.Reaches s.exchanges (.done (.error f))
  contention : ∃ key, f = .alreadyLocked key ∨ f = .conflict key

theorem status?_eq_two_iff (u : Setup σ) (events : List (Event σ)) :
    (u.run events).status? = some 2 ↔
      (∃ fault, Invocation.read u.env u.words = .error fault ∧ fault ≠ .help ∧
          u.run events = .ended (.usage fault)) ∨
        ∃ s f, u.run events = .serving s ∧ u.Contends s f := by
  constructor
  · intro h
    obtain ⟨e, hend, hstatus⟩ := Option.map_eq_some_iff.mp h
    rcases Ending.status_eq_two_iff.mp hstatus with ⟨fault, rfl, hhelp⟩ | ⟨f, rfl, hcontention⟩
    · rcases u.ended_cases hend with hkilled | ⟨hrun, hlaunch⟩ | ⟨s, -, -, hover⟩
      · cases hkilled
      · rcases launch_ended hlaunch with ⟨_, hfault, hread⟩ | ⟨i, -, hrest⟩
        · cases hfault
          exact Or.inl ⟨fault, hread, hhelp, hrun⟩
        · rcases hrest with ⟨_, he, -⟩ | ⟨_, _, he, -⟩ <;> cases he
      · rcases hover with ⟨f, hf, -⟩ | ⟨-, hends⟩
        · cases hf
        · exact hends.elim
    · rcases u.ended_cases hend with hkilled | ⟨-, hlaunch⟩ | ⟨s, hrun, hstage, hover⟩
      · cases hkilled
      · rcases launch_ended hlaunch with ⟨_, he, -⟩ | ⟨_, -, hrest⟩
        · cases he
        · rcases hrest with ⟨_, he, -⟩ | ⟨_, _, he, -⟩ <;> cases he
      · have hacc := u.accounted_run events
        rw [hrun] at hacc
        obtain ⟨i, config, opened, hread, hconfig, hopen, -, hscript, -⟩ := hacc
        rcases hover with ⟨f', hf, -⟩ | ⟨hconn, hends⟩
        · cases hf
        · exact Or.inr ⟨s, f, hrun, ⟨i, config, opened, hread, hconfig, hopen, hscript⟩, hconn,
            hstage, hends, hcontention⟩
  · rintro (⟨fault, -, hhelp, hrun⟩ | ⟨s, f, hrun, hcontends⟩)
    · rw [hrun]
      exact congrArg some (Ending.status_eq_two_iff.mpr (Or.inl ⟨fault, rfl, hhelp⟩))
    · rw [hrun, Program.status?, Program.ending?, hcontends.ended]
      exact congrArg some (Ending.status_eq_two_iff.mpr (Or.inr ⟨f, rfl, hcontends.contention⟩))

end Setup

theorem session_status_eq_two_iff {σ : Type} [LeaseStore σ] (config : Config) (command : Command)
    (i : Interrupt) (opened : σ) :
    (session config command i opened).1.status = 2 ↔
      ∃ connected f, LeaseStore.connect opened = (.ok (), connected) ∧
        ((command.script config (LeaseStore.backend connected)).runUntil i connected).1
          = .ended (.error f) ∧ ∃ key, f = .alreadyLocked key ∨ f = .conflict key := by
  unfold session
  rcases LeaseStore.connect opened with ⟨f | _, connected⟩
  · simp [Ending.status]
  simp only [serve]
  rcases hrun : (command.script config (LeaseStore.backend connected)).runUntil i connected
    with ⟨r | _, left⟩
  · simp [Ending.status_eq_two_iff, hrun]
  · cases hself : command.handlesInterrupt <;> simp [Ending.status, hrun]

/-- A run that connects its store and comes to contention there. -/
def RunContends (env : List (String × String)) (files : Files) (network : Redis.Network)
    (words : List String) (i : Interrupt) : Prop :=
  ∃ invocation config opened, Invocation.read env words = .ok invocation ∧
    invocation.config files = .ok config ∧
    Backend.ofConfig config invocation.poolSize network = .ok opened ∧
    ∃ connected f, LeaseStore.connect opened = (.ok (), connected) ∧
      ((invocation.command.script config (LeaseStore.backend connected)).runUntil i connected).1
        = .ended (.error f) ∧ ∃ key, f = .alreadyLocked key ∨ f = .conflict key

theorem run_status_eq_two_iff (env : List (String × String)) (files : Files)
    (network : Redis.Network) (words : List String) (i : Interrupt) :
    (run env files network words i).1.status = 2 ↔
      (∃ fault, Invocation.read env words = .error fault ∧ fault ≠ .help) ∨
        RunContends env files network words i := by
  simp only [run, RunContends]
  cases hread : Invocation.read env words with
  | error fault => simp [Ending.status_eq_two_iff]
  | ok invocation =>
      cases hconfig : invocation.config files with
      | error problem => simp [Ending.status, hconfig]
      | ok config =>
          cases hopen : Backend.ofConfig config invocation.poolSize network with
          | error f => simp [Ending.status, hconfig, hopen]
          | ok opened => simp [session_status_eq_two_iff, hconfig, hopen]

/-- The status 2 tells that the command line was not carried out, or that the command has come to
contention on a connected store, and nothing else. -/
theorem exit_two_tells {σ : Type} [LeaseStore σ] :
    (∀ (u : Setup σ) (events : List (Event σ)),
      (u.run events).status? = some 2 ↔
        (∃ fault, Invocation.read u.env u.words = .error fault ∧ fault ≠ .help ∧
            u.run events = .ended (.usage fault)) ∨
          ∃ s f, u.run events = .serving s ∧ u.Contends s f) ∧
      ∀ (env : List (String × String)) (files : Files) (network : Redis.Network)
        (words : List String) (i : Interrupt),
        (run env files network words i).1.status = 2 ↔
          (∃ fault, Invocation.read env words = .error fault ∧ fault ≠ .help) ∨
            RunContends env files network words i :=
  ⟨Setup.status?_eq_two_iff, run_status_eq_two_iff⟩

/-- A command line that names no command exits with 2 too, and no store was ever connected. -/
theorem unknown_command_exits_with_two :
    let u := Setup.ofNetwork [] (fun _ => .error .notFound) {} ["nope"]
    (u.run [.go]).status? = some 2 ∧ (u.run [.go]).connected? = none ∧
      ¬ ∃ s f, u.run [.go] = .serving s ∧ u.Contends s f := by
  intro u
  have hread : Invocation.read [] ["nope"] = .error .unknownSubcommand := rfl
  have hrun : u.run [.go] = .ended (.usage .unknownSubcommand) :=
    Setup.launch_of_rejected (u := u) hread
  rw [hrun]
  refine ⟨rfl, rfl, ?_⟩
  rintro ⟨s, f, hserving, -⟩
  cases hserving

end CommandLine

end KeyLease
