import KeyLease.Proofs.Clients.Requests
import KeyLease.Proofs.Program.Launch

set_option autoImplicit false

/-!
# The runs of the program among its courses

`CommandLine.run` lets an interrupt come at one of three kinds of moments and tells at once how the
run ends. Each such run is a course of the program step by step (`Setup.exists_run`): its ending and
the store that it leaves are those after some list of events, in which nobody else does anything to
the store. A command that does not listen itself
never waits but for answers (`Command.prompt_script`), so there an interrupt comes while a call is
unanswered or not at all. Someone listens when the interrupt comes, unless a command that listens
itself waits for an answer.
-/

namespace KeyLease

/-! ## Scripts that wait for answers only -/

/-- A script without waits. -/
def Script.Prompt {α : Type} : Script α → Prop
  | .done _ => True
  | .call _ next => ∀ a, (next a).Prompt
  | .hold _ _ => False

theorem Script.Prompt.bind {α β : Type} {s : Script α} {f : α → Script β} (hs : s.Prompt)
    (hf : ∀ a, (f a).Prompt) : (s.bind f).Prompt := by
  induction s with
  | done a => exact hf a
  | call c next ih => exact fun a => ih a (hs a)
  | hold d next _ => exact hs.elim

theorem Script.prompt_claim (key : Except Failure String) (c : String → Call)
    (no : String → Failure) : (Script.claim key c no).Prompt := by
  cases key with
  | error e => trivial
  | ok key => exact fun _ => trivial

namespace CommandLine

theorem prompt_andThen {α : Type} {first : Script (Except Failure Unit)}
    {next : Script (Except Failure α)} (hfirst : first.Prompt) (hnext : next.Prompt) :
    (andThen first next).Prompt := by
  refine hfirst.bind fun r => ?_
  rcases r with e | _
  · trivial
  · exact hnext

/-- A command that does not listen for interrupts itself never holds a lock for a while. -/
theorem Command.prompt_script {command : Command} (h : command.handlesInterrupt = false)
    (config : Config) (backend : String) : (command.script config backend).Prompt := by
  cases command with
  | lock key ttlMs holdMs ns =>
      cases holdMs with
      | none =>
          simp only [script, Locker.lock_eq]
          exact prompt_andThen (Script.prompt_claim _ _ _) trivial
      | some ms => cases h
  | unlock key ns =>
      simp only [script, Locker.unlock_eq]
      exact prompt_andThen (Script.prompt_claim _ _ _) trivial
  | validate key ttlMs ns =>
      simp only [script, AdmissionGuard.validate_eq]
      exact prompt_andThen (Script.prompt_claim _ _ _) trivial
  | «exists» key ns =>
      simp only [script]
      split
      · trivial
      · exact fun _ => trivial
  | health =>
      have hcheck : ∀ probe, (checkHealth probe).Prompt := fun _ _ => trivial
      exact prompt_andThen (hcheck _) (prompt_andThen (hcheck _) trivial)

/-- Whether someone listens for a command when this interrupt comes. A command that listens itself
does so only while it waits. -/
def Command.hears (command : Command) (i : Interrupt) : Prop :=
  command.handlesInterrupt = true → ∀ n, i ≠ .inCall n

/-! ## Scripts -/

namespace Errand

variable {σ : Type} [LeaseStore σ]

/-- Some events lead to this stage and this store, and nothing else happens to the store. If it is
so said, every interrupt among them is heard. -/
def Leads (s : Errand σ) (heard : Prop) (stage : Stage) (store : σ) : Prop :=
  ∃ events, (∀ e ∈ events, Event.IsOwn e) ∧ (heard → s.Heard events) ∧
    (s.run events).stage = stage ∧ (s.run events).store = store

theorem Leads.after {s s' : Errand σ} {before : List (Event σ)} {heard : Prop} {stage : Stage}
    {store : σ} (h : s'.Leads heard stage store) (hbefore : s.run before = s')
    (hown : ∀ e ∈ before, Event.IsOwn e) (hheard : s.Heard before) :
    s.Leads heard stage store := by
  subst hbefore
  obtain ⟨events, hevents, hlistens, hstage, hstore⟩ := h
  refine ⟨before ++ events, List.forall_mem_append.mpr ⟨hown, hevents⟩,
    fun hh => hheard.append (hlistens hh), ?_⟩
  rw [run_append]
  exact ⟨hstage, hstore⟩

/-- The same where no interrupt comes before. -/
theorem Leads.afterQuiet {s s' : Errand σ} {before : List (Event σ)} {heard : Prop} {stage : Stage}
    {store : σ} (h : s'.Leads heard stage store) (hbefore : s.run before = s')
    (hquiet : ∀ e ∈ before, Event.IsOwn e ∧ e ≠ .interrupt) : s.Leads heard stage store :=
  h.after hbefore (fun e he => (hquiet e he).1)
    (heard_of_notMem fun hmem => (hquiet .interrupt hmem).2 rfl)

theorem Leads.mono {s : Errand σ} {heard heard' : Prop} {stage : Stage} {store : σ}
    (h : s.Leads heard stage store) (himp : heard' → heard) : s.Leads heard' stage store := by
  obtain ⟨events, hown, hlistens, hends⟩ := h
  exact ⟨events, hown, hlistens ∘ himp, hends⟩

/-- An interrupt that can come while this script is carried out finds the errand ready for it:
either the command listens itself and nobody does so yet, or someone listens for it and it never
waits. -/
def Expects (s : Errand σ) (rest : Script (Except Failure String)) (i : Interrupt) : Prop :=
  i = .never ∨ s.command.handlesInterrupt = true ∧ s.listening = false ∨
    s.command.handlesInterrupt = false ∧ s.listening = true ∧ rest.Prompt

/-- What is left when a script has been carried out until an interrupt. -/
def stageAfter (command : Command) : Interrupted (Except Failure String) → Stage
  | .ended r => .closing (.finished r)
  | .stopped => if command.handlesInterrupt then .ended .killed else .closing .aborted

/-- What `Script.runUntil` tells of a script is what some events lead to. -/
def CarriesOut (s : Errand σ) (rest : Script (Except Failure String)) (i : Interrupt) : Prop :=
  s.Leads (s.command.hears i) (stageAfter s.command (rest.runUntil i s.store).1)
    (rest.runUntil i s.store).2

theorem carriesOut_done {s : Errand σ} {r : Except Failure String} {i : Interrupt}
    (hstage : s.stage = .ready (.done r)) : s.CarriesOut (.done r) i := by
  refine ⟨[.go], by simp [Event.IsOwn], fun _ => heard_of_notMem (by simp), ?_, ?_⟩ <;>
    simp [run, step, go, hstage, Script.runUntil, stageAfter]

section

variable {s : Errand σ} {c : Call} {next : Answer → Script (Except Failure String)} {i : Interrupt}

/-- The errand when a call has been carried out and its answer is on its way. -/
def asked (s : Errand σ) (c : Call) (next : Answer → Script (Except Failure String)) : Errand σ :=
  { s with
    store := (LeaseStore.perform c s.store).2
    stage := .answered c (LeaseStore.perform c s.store).1 next }

theorem run_asked (hstage : s.stage = .ready (.call c next)) :
    s.run [.go, .carryOut] = s.asked c next := by
  simp [asked, run, step, go, carryOut, hstage]

/-- An interrupt that comes before the answer does stops the script. -/
theorem carriesOut_of_stopped (hstage : s.stage = .ready (.call c next))
    (hexp : s.Expects (.call c next) (.inCall 0)) : s.CarriesOut (.call c next) (.inCall 0) := by
  refine Leads.afterQuiet ?_ (run_asked hstage) (by simp [Event.IsOwn])
  rcases hexp with hnever | ⟨hself, hunheard⟩ | ⟨hdeaf, hlistens, -⟩
  · cases hnever
  · -- Nobody listens yet.
    have hdeaf : ¬ s.command.hears (.inCall 0) := fun hears => hears hself 0 rfl
    refine ⟨[.interrupt], by simp [Event.IsOwn], fun hears => absurd hears hdeaf, ?_, ?_⟩ <;>
      simp [run, step, interrupt, asked, hunheard, Script.runUntil, stageAfter, hself]
  · have hheard : (s.asked c next).Heard [.interrupt] :=
      heard_cons.mpr ⟨fun _ => hlistens, heard_of_notMem (by simp)⟩
    refine ⟨[.interrupt], by simp [Event.IsOwn], fun _ => hheard, ?_, ?_⟩ <;>
      simp [run, step, interrupt, hear, asked, hlistens, Script.runUntil, stageAfter, hdeaf,
        Stage.busy]

/-- Any other script goes on with the answer. -/
theorem carriesOut_of_told {j : Interrupt} (hstage : s.stage = .ready (.call c next))
    (hears : s.command.hears i → s.command.hears j)
    (hrun : (Script.call c next).runUntil i s.store
      = (next (LeaseStore.perform c s.store).1).runUntil j (LeaseStore.perform c s.store).2)
    (h : (s.asked c next).go.CarriesOut (next (LeaseStore.perform c s.store).1) j) :
    s.CarriesOut (.call c next) i := by
  unfold CarriesOut
  rw [hrun]
  have hgo : (s.asked c next).run [.go] = (s.asked c next).go := rfl
  have hasked := Leads.afterQuiet h hgo (by simp [Event.IsOwn])
  exact (hasked.afterQuiet (run_asked hstage) (by simp [Event.IsOwn])).mono hears

end

section

variable {s : Errand σ} {d : Duration} {rest : Script (Except Failure String)} {i : Interrupt}

/-- The errand when a wait has been looked at, and someone listens. -/
def waiting (s : Errand σ) (d : Duration) (rest : Script (Except Failure String)) : Errand σ :=
  { s with stage := .holding d.nanos rest, listening := true }

/-- The errand when it has waited so long. -/
def rested (s : Errand σ) (d : Duration) (rest : Script (Except Failure String)) : Errand σ :=
  { s with store := LeaseStore.pass d s.store, stage := .ready rest, listening := true }

theorem run_waiting (hstage : s.stage = .ready (.hold d rest)) :
    s.run [.go, .go] = s.waiting d rest := by
  simp [waiting, run, step, go, hstage]

theorem run_rested : (s.waiting d rest).run [.elapse d, .go] = s.rested d rest := by
  simp [rested, waiting, run, step, go, Stage.elapse]

/-- A wait that is cut short. -/
theorem run_woken (hself : s.command.handlesInterrupt = true) (after : Duration) :
    (s.waiting d rest).run [.elapse after, .interrupt] = s.rested after rest := by
  simp [rested, waiting, run, step, interrupt, hear, Stage.elapse, hself]

/-- A wait that nothing interrupts. -/
theorem carriesOut_of_rested (hstage : s.stage = .ready (.hold d rest))
    (hrun : (Script.hold d rest).runUntil i s.store
      = rest.runUntil .never (LeaseStore.pass d s.store))
    (h : (s.rested d rest).CarriesOut rest .never) : s.CarriesOut (.hold d rest) i := by
  unfold CarriesOut
  rw [hrun]
  have hwaiting := Leads.afterQuiet h run_rested (by simp [Event.IsOwn])
  exact (hwaiting.afterQuiet (run_waiting hstage) (by simp [Event.IsOwn])).mono
    fun _ => by simp [rested, Command.hears]

/-- A wait that an interrupt cuts short. -/
theorem carriesOut_of_woken {after : Duration} (hstage : s.stage = .ready (.hold d rest))
    (hexp : s.Expects (.hold d rest) (.inHold after)) (hafter : after < d)
    (h : (s.rested after rest).CarriesOut rest .never) :
    s.CarriesOut (.hold d rest) (.inHold after) := by
  -- Whoever waits listens himself.
  have hself : s.command.handlesInterrupt = true := by
    rcases hexp with hnever | ⟨hself, -⟩ | ⟨-, -, hprompt⟩
    · cases hnever
    · exact hself
    · exact hprompt.elim
  have hheard : (s.waiting d rest).Heard [.elapse after, .interrupt] :=
    heard_cons.mpr ⟨by simp, heard_cons.mpr ⟨fun _ => rfl, heard_of_notMem (by simp)⟩⟩
  simp only [CarriesOut, Script.runUntil, if_pos hafter]
  have hwaiting := Leads.after h (run_woken hself after) (by simp [Event.IsOwn]) hheard
  exact (hwaiting.afterQuiet (run_waiting hstage) (by simp [Event.IsOwn])).mono
    fun _ => by simp [rested, Command.hears]

end

/-- A script that is carried out until an interrupt comes of some events. -/
theorem carriesOut (rest : Script (Except Failure String)) :
    ∀ {s : Errand σ} {i : Interrupt}, s.stage = .ready rest → s.Expects rest i →
      s.CarriesOut rest i := by
  induction rest with
  | done r => exact fun hstage _ => carriesOut_done hstage
  | call c next ih =>
      intro s i hstage hexp
      -- Once the answer is there, the errand is as ready for a later interrupt as before.
      have hnext : ∀ {j : Interrupt}, (j = .never ∨ i ≠ .never) →
          (s.asked c next).go.CarriesOut (next (LeaseStore.perform c s.store).1) j := by
        rintro j (rfl | hi)
        · exact ih _ rfl (Or.inl rfl)
        · refine ih _ rfl ?_
          rcases hexp with rfl | hself | ⟨hdeaf, hlistens, hprompt⟩
          · exact absurd rfl hi
          · exact Or.inr (Or.inl hself)
          · exact Or.inr (Or.inr ⟨hdeaf, hlistens, hprompt _⟩)
      cases i with
      | never => exact carriesOut_of_told hstage id rfl (hnext (Or.inl rfl))
      | inHold after => exact carriesOut_of_told hstage id rfl (hnext (Or.inr (by simp)))
      | inCall n =>
          cases n with
          | zero => exact carriesOut_of_stopped hstage hexp
          | succ n =>
              refine carriesOut_of_told hstage ?_ rfl (hnext (Or.inr (by simp)))
              exact fun hears hself _ => absurd rfl (hears hself (n + 1))
  | hold d rest ih =>
      intro s i hstage hexp
      have hrested : ∀ {d : Duration}, (s.rested d rest).CarriesOut rest .never :=
        ih rfl (Or.inl rfl)
      cases i with
      | never => exact carriesOut_of_rested hstage rfl hrested
      | inCall n => exact carriesOut_of_rested hstage rfl hrested
      | inHold after =>
          by_cases hafter : after < d
          · exact carriesOut_of_woken hstage hexp hafter hrested
          · refine carriesOut_of_rested hstage ?_ hrested
            simp only [Script.runUntil, if_neg hafter]

/-! ## Sessions and runs -/

/-- Once its command is over, an errand disconnects its store and comes to its end. -/
theorem Leads.close {s : Errand σ} {heard : Prop} {e : Ending} {store : σ}
    (h : s.Leads heard (.closing e) store) :
    s.Leads heard (.ended e) (LeaseStore.disconnect store).2 := by
  obtain ⟨events, hown, hlistens, hstage, hstore⟩ := h
  have hclose : ∀ t : Errand σ, t.stage = .closing e → (t.run [.go, .carryOut]).stage = .ended e ∧
      (t.run [.go, .carryOut]).store = (LeaseStore.disconnect t.store).2 := by
    intro t ht
    simp [run, step, go, carryOut, ht]
  refine ⟨events ++ [.go, .carryOut],
    List.forall_mem_append.mpr ⟨hown, by simp [Event.IsOwn]⟩, ?_, ?_⟩
  · intro hh
    exact (hlistens hh).append (heard_of_notMem (by simp))
  · rw [run_append, ← hstore]
    exact hclose _ hstage

/-- The errand of a command that has begun on a connected store. Someone listens for the command
unless it does so itself. -/
def begun (command : Command) (script : Script (Except Failure String)) (store : σ) :
    Errand σ where
  command
  script
  store
  stage := .ready script
  connected := some (.ok ())
  listening := !command.handlesInterrupt

theorem run_begun {config : Config} {command : Command} {opened store : σ}
    (hconn : LeaseStore.connect opened = (.ok (), store)) :
    (ofStore config command opened).run [.go, .carryOut, .listen]
      = begun command (command.script config (LeaseStore.backend opened)) store := by
  cases hself : command.handlesInterrupt <;>
    simp [begun, run, step, go, carryOut, listen, ofStore, hconn, Stage.busy, hself]

theorem expects_begun {τ : Type} (config : Config) (command : Command) (backend : String)
    (store : τ) (i : Interrupt) :
    (begun command (command.script config backend) store).Expects
      (command.script config backend) i := by
  cases hself : command.handlesInterrupt with
  | true => exact Or.inr (Or.inl ⟨hself, by simp [begun, hself]⟩)
  | false =>
      have hprompt := Command.prompt_script hself config backend
      exact Or.inr (Or.inr ⟨hself, by simp [begun, hself], hprompt⟩)

/-- A session is the end of some course of its errand, if connecting leaves the store its name. -/
theorem leads_session (config : Config) (command : Command) (i : Interrupt) {opened : σ}
    (hname : LeaseStore.backend (LeaseStore.connect opened).2 = LeaseStore.backend opened) :
    (ofStore config command opened).Leads (command.hears i)
      (.ended (session config command i opened).1) (session config command i opened).2 := by
  rcases hconn : LeaseStore.connect opened with ⟨f | _, store⟩
  · refine ⟨[.go, .carryOut], by simp [Event.IsOwn], fun _ => heard_of_notMem (by simp), ?_, ?_⟩ <;>
      simp [run, step, go, carryOut, ofStore, session, hconn]
  · rw [hconn] at hname
    refine Leads.afterQuiet ?_ (run_begun hconn) (by simp [Event.IsOwn])
    rw [← hname]
    have hends := carriesOut (command.script config (LeaseStore.backend store)) rfl
      (expects_begun config command (LeaseStore.backend store) store i)
    unfold CarriesOut at hends
    simp only [session, hconn, serve]
    rcases hrun : (command.script config (LeaseStore.backend store)).runUntil i store
      with ⟨r | _, left⟩
    · simp only [begun, hrun] at hends
      exact hends.close
    · simp only [begun, hrun, stageAfter] at hends
      cases hself : command.handlesInterrupt with
      | true => simpa [begun, hself] using hends
      | false =>
          refine Leads.close ?_
          simpa [begun, hself] using hends

end Errand

/-- The names of stores are fixed. -/
theorem backend_connect (store : Backend) :
    LeaseStore.backend (LeaseStore.connect store).2 = LeaseStore.backend store := by
  cases store <;> rfl

namespace Setup

/-- What a program finds that opens the stores of `Backend`. -/
def ofNetwork (env : List (String × String)) (files : Files) (network : Redis.Network)
    (words : List String) : Setup Backend where
  env
  files
  words
  opener config poolSize := Backend.ofConfig config poolSize network

/-- Each run of `CommandLine.run` is the end of some course of the program, in which nothing else
happens to the store. -/
theorem exists_run (env : List (String × String)) (files : Files) (network : Redis.Network)
    (words : List String) (i : Interrupt) :
    ∃ events, (∀ e ∈ events, Event.IsOwn e) ∧
      (∀ invocation, Invocation.read env words = .ok invocation → invocation.command.hears i →
        (ofNetwork env files network words).Heard .launching events) ∧
      ((ofNetwork env files network words).run events).ending?
          = some (CommandLine.run env files network words i).1 ∧
        ((ofNetwork env files network words).run events).store?
          = (CommandLine.run env files network words i).2 := by
  let u := ofNetwork env files network words
  have hgo : ∀ events, u.run (.go :: events) = u.follow u.launch events := fun _ => rfl
  have hgoes : ∀ e ∈ [(.go : Event Backend)], e.IsOwn := by simp [Event.IsOwn]
  have hheard : u.Heard .launching [.go] := by
    refine heard_cons.mpr ⟨nofun, fun n hn => by cases hn⟩
  cases hread : Invocation.read env words with
  | error e =>
      have hlaunch : u.launch = .ended (.usage e) := launch_of_rejected hread
      refine ⟨[.go], hgoes, fun _ _ _ => hheard, ?_⟩
      rw [hgo, hlaunch]
      simp only [CommandLine.run, hread]
      exact ⟨rfl, rfl⟩
  | ok invocation =>
      cases hconfig : invocation.config files with
      | error problem =>
          have hlaunch : u.launch = .ended (.unconfigured problem) :=
            launch_of_unconfigured hread hconfig
          refine ⟨[.go], hgoes, fun _ _ _ => hheard, ?_⟩
          rw [hgo, hlaunch]
          simp only [CommandLine.run, hread, hconfig]
          exact ⟨rfl, rfl⟩
      | ok config =>
          cases hopen : Backend.ofConfig config invocation.poolSize network with
          | error f =>
              have hlaunch : u.launch = .ended (.unconnected f) :=
                launch_of_unopened hread hconfig hopen
              refine ⟨[.go], hgoes, fun _ _ _ => hheard, ?_⟩
              rw [hgo, hlaunch]
              simp only [CommandLine.run, hread, hconfig, hopen]
              exact ⟨rfl, rfl⟩
          | ok store =>
              have hlaunch : u.launch = .serving (.ofStore config invocation.command store) :=
                launch_of_opened hread hconfig hopen
              obtain ⟨events, hown, hlistens, hstage, hstore⟩ :=
                Errand.leads_session config invocation.command i (backend_connect store)
              refine ⟨.go :: events, List.forall_mem_cons.mpr ⟨trivial, hown⟩, ?_, ?_⟩
              · intro _ hinv hears
                cases hinv
                refine heard_cons.mpr ⟨nofun, ?_⟩
                rw [show u.step .launching .go = u.launch from rfl, hlaunch]
                exact heard_serving.mpr (hlistens hears)
              · rw [hgo, hlaunch, follow_serving]
                simp only [CommandLine.run, hread, hconfig, hopen]
                exact ⟨by rw [Program.ending?, hstage]; rfl, congrArg some hstore⟩

end Setup

end CommandLine

end KeyLease
