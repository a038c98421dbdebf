import KeyLease.Proofs.Program.ExitStatus
import KeyLease.Proofs.Program.Record
import KeyLease.Proofs.Program.Verdict

set_option autoImplicit false

/-!
# How accepted command lines end

For a command line that is accepted, `Setup.Orderly` says how its program ends and what its store
has done, as long as interrupts come only while someone listens: no store is asked for anything
before it is open, none is disconnected that could not be connected, and every other is disconnected
once, after the command. `Setup.runs_end_orderly` says that every program is orderly at every
moment. What a store has done is told by the store itself (`Setup.deeds?`).
-/

namespace KeyLease.CommandLine

/-- Every command but a lock that is held for a while leaves interrupts to the program. -/
theorem Command.handlesInterrupt_eq_false_iff {command : Command} :
    command.handlesInterrupt = false ↔
      ∀ key ttlMs holdMs ns, command ≠ .lock key ttlMs (some holdMs) ns := by
  cases command with
  | lock key ttlMs holdMs ns => cases holdMs <;> simp [handlesInterrupt]
  | _ => simp [handlesInterrupt]

namespace Setup

variable {σ : Type} [LeaseStore σ]

/-- What has become of an accepted command line after these events. -/
structure Orderly (u : Setup σ) (i : Invocation) (events : List (Event σ)) : Prop where
  /-- Without a configuration there is no store to be connected. -/
  unconfigured : ∀ problem, i.config u.files = .error problem → u.deeds? events = none ∧
    ∀ e, (u.run events).ending? = some e → e = .unconfigured problem
  /-- Nor is there if none can be opened. -/
  unopened : ∀ config f, i.config u.files = .ok config → u.opener config i.poolSize = .error f →
    u.deeds? events = none ∧ ∀ e, (u.run events).ending? = some e → e = .unconnected f
  /-- A program with a store carries out the command of its command line. -/
  serving : ∀ s, u.run events = .serving s → ∃ config store, i.config u.files = .ok config ∧
    u.opener config i.poolSize = .ok store ∧ s.command = i.command ∧
      s.script = i.command.script config (LeaseStore.backend store)
  /-- It does not end before its store has been asked to connect, and asks it for nothing before
  that. -/
  connecting : ∀ deeds, u.deeds? events = some deeds →
    deeds = [] ∧ (u.run events).ending? = none ∨ ∃ r rest, deeds = .connect r :: rest
  /-- A store that cannot be connected is asked for nothing else, and the program ends. -/
  unconnected : ∀ f deeds, u.deeds? events = some deeds → .connect (.error f) ∈ deeds →
    deeds = [.connect (.error f)] ∧ (u.run events).ending? = some (.unconnected f)
  /-- A store that is connected answers the calls of the command, and then it is disconnected, once.
  The program does not end before that, and it ends as the command does by those answers. -/
  connected : ∀ s deeds, u.run events = .serving s → u.deeds? events = some deeds →
    .connect (.ok ()) ∈ deeds → ∃ told,
      deeds = Deed.served told ∧ s.stage.ending? = none ∨
        ∃ r e, deeds = Deed.served told ++ [.disconnect r] ∧ s.stage = .ended e ∧
          s.Concludes told e
  /-- It is disconnected only when the command has come to its end or has been aborted, and is left
  as it is then. -/
  disconnected : ∀ n deeds r, u.deeds? (events.take n) = some deeds →
    u.deeds? (events.take (n + 1)) = some (deeds ++ [.disconnect r]) →
      ∃ s e, u.run (events.take n) = .serving s ∧ s.stage.verdict? = some e ∧
        (u.run (events.take (n + 1))).store? = some (LeaseStore.disconnect s.store).2
  /-- A command that succeeds has its message printed, and the status is 0. -/
  printed : ∀ message usage, (u.run events).ending? = some (.finished (.ok message)) →
    Ending.output usage (.finished (.ok message)) = message ++ "\n" ∧
      (u.run events).status? = some 0
  /-- In every other case nothing is printed, and the status is not 0. -/
  silent : ∀ e usage, (u.run events).ending? = some e →
    (∀ message, e ≠ .finished (.ok message)) → e.output usage = "" ∧ e.status ≠ 0
  /-- The status is 130 if and only if a command other than a lock that is held for a while has been
  interrupted while it was under way. -/
  aborted : ∀ e, (u.run events).ending? = some e →
    (e.status = 130 ↔ (∀ key ttlMs holdMs ns, i.command ≠ .lock key ttlMs (some holdMs) ns) ∧
      ∃ n, events[n]? = some .interrupt ∧ (u.run (events.take n)).busy = true)

variable {u : Setup σ} {i : Invocation} {events : List (Event σ)}

theorem verdict?_run (hheard : u.Heard .launching events) :
    (u.run events).verdict? ≠ some .killed ∧
      ((u.run events).verdict? = some .aborted ↔ u.Strikes .launching events) :=
  u.verdict?_follow hheard rfl

theorem ne_killed (hheard : u.Heard .launching events) {e : Ending}
    (h : (u.run events).ending? = some e) : e ≠ .killed := by
  rintro rfl
  exact (verdict?_run hheard).1 (Program.verdict?_of_ending? h)

theorem stage_ne_killed (hheard : u.Heard .launching events) {s : Errand σ}
    (h : u.run events = .serving s) : s.stage ≠ .ended .killed := by
  intro hstage
  refine ne_killed hheard (e := .killed) ?_ rfl
  rw [h, Program.ending?, hstage]
  rfl

/-- For an accepted command line, a program that has no errand has no store, and has ended only for
want of a configuration or a store. -/
theorem unserved (hread : Invocation.read u.env u.words = .ok i)
    (hheard : u.Heard .launching events)
    (hnone : ∀ config store, i.config u.files = .ok config →
      u.opener config i.poolSize ≠ .ok store) :
    u.deeds? events = none ∧ ∀ e, (u.run events).ending? = some e →
      (∃ problem, e = .unconfigured problem ∧ i.config u.files = .error problem) ∨
        ∃ config f, e = .unconnected f ∧ i.config u.files = .ok config ∧
          u.opener config i.poolSize = .error f := by
  have hunserved : ∀ s, u.run events ≠ .serving s := by
    intro s hp
    obtain ⟨config, store, hconfig, hopen, -⟩ := serving_run hread hp
    exact hnone config store hconfig hopen
  refine ⟨Option.eq_none_iff_forall_ne_some.mpr fun deeds hdeeds => ?_, fun e he => ?_⟩
  · obtain ⟨t, -, hp, -⟩ := serving_of_deeds? hdeeds
    exact hunserved _ hp
  · rcases u.ended_cases he with hkilled | ⟨-, hlaunch⟩ | ⟨s, hp, -⟩
    · exact absurd hkilled (ne_killed hheard he)
    · rcases launch_ended hlaunch with ⟨fault, -, hfault⟩ | ⟨i', hread', h⟩
      · cases hread.symm.trans hfault
      · cases hread.symm.trans hread'
        exact h
    · exact absurd hp (hunserved s)

/-- For an accepted command line, an interrupt that is heard aborts the command if it comes while
the command is under way and does not listen itself. -/
theorem strikes_iff (hread : Invocation.read u.env u.words = .ok i) :
    u.Strikes .launching events ↔ i.command.handlesInterrupt = false ∧
      ∃ n, events[n]? = some .interrupt ∧ (u.run (events.take n)).busy = true := by
  have habortable : ∀ n, (u.run (events.take n)).abortable = true ↔
      i.command.handlesInterrupt = false ∧ (u.run (events.take n)).busy = true := by
    intro n
    cases hp : u.run (events.take n) with
    | serving s =>
        obtain ⟨-, -, -, -, hcommand, -⟩ := serving_run hread hp
        simp [Program.abortable, Errand.abortable, Program.busy, hcommand, and_comm]
    | _ => simp [Program.abortable, Program.busy]
  constructor
  · rintro ⟨n, hn, habort⟩
    obtain ⟨hdeaf, hbusy⟩ := (habortable n).mp habort
    exact ⟨hdeaf, n, hn, hbusy⟩
  · rintro ⟨hdeaf, n, hn, hbusy⟩
    exact ⟨n, hn, (habortable n).mpr ⟨hdeaf, hbusy⟩⟩

/-- A program whose line was accepted does not end with a complaint about it. -/
theorem ne_usage (hread : Invocation.read u.env u.words = .ok i) {e : Ending} {fault : UsageError}
    (h : (u.run events).ending? = some e) : e ≠ .usage fault := by
  rintro rfl
  rcases u.ended_cases h with hkilled | ⟨-, hlaunch⟩ | ⟨s, -, -, hover⟩
  · cases hkilled
  · rcases launch_ended hlaunch with ⟨_, -, hfault⟩ | ⟨_, -, ⟨_, he, -⟩ | ⟨_, _, he, -⟩⟩
    · rw [hread] at hfault
      cases hfault
    · cases he
    · cases he
  · rcases hover with ⟨_, he, -⟩ | ⟨-, hends⟩
    · cases he
    · exact hends.elim

/-- A store is not disconnected while the command is under way. -/
theorem exists_serving_of_disconnected {n : Nat} {deeds : List Deed} {r : Except Failure Unit}
    (h : u.deeds? (events.take n) = some deeds)
    (hnext : u.deeds? (events.take (n + 1)) = some (deeds ++ [.disconnect r])) :
    ∃ s e, u.run (events.take n) = .serving s ∧ s.stage.verdict? = some e ∧
      (u.run (events.take (n + 1))).store? = some (LeaseStore.disconnect s.store).2 := by
  obtain ⟨t, hnoted, hp, -, rfl⟩ := serving_of_deeds? h
  rw [List.take_add_one] at hnext ⊢
  cases hn : events[n]? with
  | none =>
      rw [hn, Option.toList_none, List.append_nil, h] at hnext
      simp at hnext
  | some e =>
      have hstep : (t.step e.noted).store.deeds = t.store.deeds ++ [.disconnect r] := by
        rw [hn, Option.toList_some, deeds?, List.map_append, run, follow_append] at hnext
        rw [show u.noted.follow .launching ((events.take n).map Event.noted) = .serving t
          from hnoted] at hnext
        exact Option.some.inj hnext
      obtain ⟨rfl, ending, hstage⟩ := Errand.disconnecting_of_noted hstep
      have hplain : t.plain.stage = .disconnecting ending := hstage
      refine ⟨t.plain, ending, hp, by rw [hplain]; rfl, ?_⟩
      rw [Option.toList_some, run, follow_append]
      rw [show u.follow .launching (events.take n) = .serving t.plain from hp]
      simp [follow, step, Program.store?, Errand.step, Errand.carryOut, hplain]

/-- All that the store of a program has done, if every interrupt was heard. -/
theorem deeds_cases (hheard : u.Heard .launching events) {deeds : List Deed}
    (h : u.deeds? events = some deeds) :
    ∃ s, u.run events = .serving s ∧
      (deeds = [] ∧ s.stage.ending? = none ∨
        (∃ f, deeds = [.connect (.error f)] ∧ s.stage = .ended (.unconnected f)) ∨
        (∃ told, deeds = Deed.served told ∧ s.stage.ending? = none) ∨
        ∃ told r e, deeds = Deed.served told ++ [.disconnect r] ∧ s.stage = .ended e ∧
          s.Concludes told e) := by
  obtain ⟨t, -, hp, hkept, rfl⟩ := serving_of_deeds? h
  exact ⟨t.plain, hp, hkept.cases (stage_ne_killed hheard hp)⟩

theorem orderly (hread : Invocation.read u.env u.words = .ok i)
    (hheard : u.Heard .launching events) : u.Orderly i events where
  unconfigured problem hproblem := by
    have hnone : ∀ config store, i.config u.files = .ok config →
        u.opener config i.poolSize ≠ .ok store := by
      intro config store hconfig
      rw [hproblem] at hconfig
      cases hconfig
    obtain ⟨hdeeds, hends⟩ := unserved hread hheard hnone
    refine ⟨hdeeds, fun e he => ?_⟩
    rcases hends e he with ⟨problem', rfl, h⟩ | ⟨config, f, -, h, -⟩
    · rw [hproblem] at h
      cases h
      rfl
    · rw [hproblem] at h
      cases h
  unopened config f hconfig hopen := by
    have hnone : ∀ config' store, i.config u.files = .ok config' →
        u.opener config' i.poolSize ≠ .ok store := by
      intro config' store hconfig'
      rw [hconfig] at hconfig'
      cases hconfig'
      rw [hopen]
      exact nofun
    obtain ⟨hdeeds, hends⟩ := unserved hread hheard hnone
    refine ⟨hdeeds, fun e he => ?_⟩
    rcases hends e he with ⟨problem', rfl, h⟩ | ⟨config', f', rfl, h, h'⟩
    · rw [hconfig] at h
      cases h
    · rw [hconfig] at h
      cases h
      rw [hopen] at h'
      cases h'
      rfl
  serving s hp := serving_run hread hp
  connecting deeds hdeeds := by
    obtain ⟨s, hp, hnothing | ⟨f, rfl, -⟩ | ⟨told, rfl, -⟩ | ⟨told, r, e, rfl, -⟩⟩ :=
      deeds_cases hheard hdeeds
    · rw [hp]
      exact Or.inl hnothing
    · exact Or.inr ⟨_, _, rfl⟩
    · exact Or.inr ⟨_, _, rfl⟩
    · exact Or.inr ⟨_, _, rfl⟩
  unconnected f deeds hdeeds hmem := by
    obtain ⟨s, hp, ⟨rfl, -⟩ | ⟨f', rfl, hstage⟩ | ⟨told, rfl, -⟩ | ⟨told, r, e, rfl, -⟩⟩ :=
      deeds_cases hheard hdeeds
    · cases hmem
    · cases List.mem_singleton.mp hmem
      rw [hp, Program.ending?, hstage]
      exact ⟨rfl, rfl⟩
    · simp [Deed.served] at hmem
    · simp [Deed.served] at hmem
  connected s deeds hp hdeeds hmem := by
    obtain ⟨s', hp', hcases⟩ := deeds_cases hheard hdeeds
    cases hp.symm.trans hp'
    rcases hcases with ⟨rfl, -⟩ | ⟨f, rfl, -⟩ | ⟨told, hserved⟩ | ⟨told, r, e, hclosed⟩
    · cases hmem
    · cases List.mem_singleton.mp hmem
    · exact ⟨told, Or.inl hserved⟩
    · exact ⟨told, Or.inr ⟨r, e, hclosed⟩⟩
  disconnected n deeds r hdeeds hnext :=
    exists_serving_of_disconnected hdeeds hnext
  printed message usage h := by
    refine ⟨rfl, ?_⟩
    rw [Program.status?, h]
    rfl
  silent e usage h hfail := Ending.silent_of_ne (ne_usage hread h) hfail usage
  aborted e h := by
    have hverdict := Program.verdict?_of_ending? h
    have haborted := (verdict?_run hheard).2
    rw [hverdict, Option.some.injEq, strikes_iff hread] at haborted
    rw [Ending.status_eq_130_iff, ← Command.handlesInterrupt_eq_false_iff, ← haborted]
    exact or_iff_left (ne_killed hheard h)

/-- An accepted command line ends as it should, and cleans up behind it, if interrupts come only
while someone listens. That its store takes notes changes nothing, and what comes of disconnecting
makes no difference. Every program comes to an end, and the runs of `CommandLine.run` are among
these: nothing happens to their stores but what the program asks for. -/
theorem runs_end_orderly (hread : Invocation.read u.env u.words = .ok i)
    (hheard : u.Heard .launching events) :
    u.Orderly i events ∧
      (u.noted.run (events.map Event.noted)).plain = u.run events ∧
      (∀ disconnect : σ → Except Failure Unit × σ,
        (@Setup.run σ (withDisconnect disconnect) u events).ending? = (u.run events).ending?) ∧
      (∃ more, (∀ e ∈ more, Event.IsCourse e) ∧ ((u.run (events ++ more)).ending?).isSome) ∧
      ∀ (network : Redis.Network) (moment : Interrupt), i.command.hears moment →
        let program := ofNetwork u.env u.files network u.words
        ∃ course, (∀ e ∈ course, Event.IsOwn e) ∧ program.Heard .launching course ∧
          program.Orderly i course ∧
          (program.run course).ending?
              = some (CommandLine.run u.env u.files network u.words moment).1 ∧
            (program.run course).store?
              = (CommandLine.run u.env u.files network u.words moment).2 := by
  refine ⟨orderly hread hheard, u.plain_run events, fun disconnect => ?_, u.exists_end events, ?_⟩
  · exact (u.matches_follow disconnect (.same .launching) events).ending?_eq
  · intro network moment hhears program
    obtain ⟨course, hown, hcourse, hends⟩ := exists_run u.env u.files network u.words moment
    have hheard' : program.Heard .launching course := hcourse i hread hhears
    exact ⟨course, hown, hheard', orderly hread hheard', hends⟩

/-- A health check on a store in memory that is interrupted while its first answer is on its way: it
is aborted, and its store is disconnected. -/
theorem runs_end_orderly_health :
    let u := ofNetwork [] (fun _ => .error .notFound) {} ["health"]
    let events : List (Event Backend) :=
      [.go, .go, .carryOut, .listen, .go, .carryOut, .interrupt, .go, .carryOut]
    ∃ i, Invocation.read u.env u.words = .ok i ∧ u.Heard .launching events ∧
      u.Orderly i events ∧
      u.deeds? events
        = some [.connect (.ok ()), .call (.check .readiness) (.ok true), .disconnect (.ok ())] ∧
      (u.run events).status? = some 130 := by
  intro u events
  have hread : Invocation.read u.env u.words = .ok
      { uri := "memory://", defaultTtlMs := 30000, opTimeoutMs := 3000, poolSize := 4
        configPath := none, command := .health } := rfl
  have hlistens : (u.run [.go, .go, .carryOut, .listen, .go, .carryOut]).listening = true := by
    decide +kernel
  have hheard : u.Heard .launching events := by
    simp only [events, heard_cons]
    exact ⟨nofun, nofun, nofun, nofun, nofun, nofun, fun _ => hlistens, nofun, nofun,
      fun _ hn => by cases hn⟩
  refine ⟨_, hread, hheard, (runs_end_orderly hread hheard).1, ?_, ?_⟩
  · rfl
  · decide +kernel

end Setup

end KeyLease.CommandLine
