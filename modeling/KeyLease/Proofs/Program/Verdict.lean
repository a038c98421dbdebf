import KeyLease.Proofs.Program.Launch

set_option autoImplicit false

/-!
# Verdicts

What becomes of a program is settled at one moment, and its verdict never changes after that
(`Setup.verdict?_step`). If every interrupt is heard, no program is killed, and a command is aborted
if and only if an interrupt came while it was under way and did not listen itself
(`Setup.verdict?_follow`).

What comes of disconnecting is settled later still, and nothing looks at it: with another way of
disconnecting the same program ends the same way (`Setup.matches_follow`).
-/

namespace KeyLease.CommandLine

/-! ## Verdicts -/

/-- What has become of the command, once that is known. -/
def Stage.verdict? : Stage → Option Ending
  | .closing e | .disconnecting e | .ended e => some e
  | _ => none

namespace Errand

variable {σ : Type}

/-- Whether an interrupt that is heard aborts the command. -/
def abortable (s : Errand σ) : Bool := s.stage.busy && !s.command.handlesInterrupt

theorem verdict?_of_abortable {s : Errand σ} (h : s.abortable = true) :
    s.stage.verdict? = none := by
  unfold abortable at h
  cases hstage : s.stage <;> simp_all [Stage.busy, Stage.verdict?]

/-- What a step can make of an open verdict. -/
def Settles (s : Errand σ) (e : Event σ) (v : Ending) : Prop :=
  v ≠ .killed ∧ (v = .aborted → e = .interrupt ∧ s.abortable = true)

theorem verdict?_go (s : Errand σ) :
    s.go.stage.verdict? = s.stage.verdict? ∨
      s.stage.verdict? = none ∧ ∃ r, s.go.stage.verdict? = some (.finished r) := by
  unfold go
  split <;> simp_all [Stage.verdict?]

theorem verdict?_carryOut [LeaseStore σ] (s : Errand σ) :
    s.carryOut.stage.verdict? = s.stage.verdict? ∨
      s.stage.verdict? = none ∧ ∃ f, s.carryOut.stage.verdict? = some (.unconnected f) := by
  unfold carryOut
  split
  · split <;> simp_all [Stage.verdict?]
  · simp_all [Stage.verdict?]
  · simp_all [Stage.verdict?]
  · simp_all [Stage.verdict?]

theorem verdict?_interrupt {s : Errand σ} (h : s.listening = true) :
    s.interrupt.stage.verdict?
      = if s.abortable then some .aborted else s.stage.verdict? := by
  unfold interrupt hear abortable
  cases hstage : s.stage <;> cases hself : s.command.handlesInterrupt <;>
    simp [h, hstage, Stage.busy, Stage.verdict?]

/-- A verdict never changes. If someone listens, none is that the program was killed, and only
interrupts abort a command. -/
theorem verdict?_step [LeaseStore σ] (s : Errand σ) {e : Event σ}
    (h : e = .interrupt → s.listening = true) :
    (s.step e).stage.verdict? = s.stage.verdict? ∨
      s.stage.verdict? = none ∧ ∃ v, (s.step e).stage.verdict? = some v ∧ s.Settles e v := by
  cases e with
  | go =>
      rcases s.verdict?_go with hsame | ⟨hopen, r, hr⟩
      · exact Or.inl hsame
      · exact Or.inr ⟨hopen, _, hr, by simp [Settles]⟩
  | carryOut =>
      rcases s.verdict?_carryOut with hsame | ⟨hopen, f, hf⟩
      · exact Or.inl hsame
      · exact Or.inr ⟨hopen, _, hf, by simp [Settles]⟩
  | interrupt =>
      simp only [step, verdict?_interrupt (h rfl)]
      by_cases habort : s.abortable = true
      · rw [if_pos habort]
        exact Or.inr ⟨verdict?_of_abortable habort, _, rfl, by simp [Settles, habort]⟩
      · rw [if_neg habort]
        exact Or.inl rfl
  | listen =>
      simp only [step, listen]
      split <;> exact Or.inl rfl
  | slip =>
      refine Or.inl ?_
      simp only [step, slip]
      split <;> simp_all [Stage.verdict?]
  | elapse d =>
      refine Or.inl ?_
      cases hstage : s.stage <;> simp [step, hstage, Stage.elapse, Stage.verdict?]
  | stir f => exact Or.inl rfl

end Errand

namespace Program

variable {σ : Type}

/-- What has become of the program, once that is known. -/
def verdict? : Program σ → Option Ending
  | .launching => none
  | .ended e => some e
  | .serving s => s.stage.verdict?

/-- Whether an interrupt that is heard aborts the command. -/
def abortable : Program σ → Bool
  | .serving s => s.abortable
  | _ => false

theorem verdict?_of_abortable {p : Program σ} (h : p.abortable = true) : p.verdict? = none := by
  cases p with
  | serving s => exact Errand.verdict?_of_abortable h
  | _ => cases h

theorem verdict?_of_ending? {p : Program σ} {e : Ending} (h : p.ending? = some e) :
    p.verdict? = some e := by
  cases p with
  | launching => cases h
  | ended _ => exact h
  | serving s =>
      simp only [ending?] at h
      cases hstage : s.stage <;> simp_all [Stage.ending?, verdict?, Stage.verdict?]

end Program

namespace Setup

variable {σ : Type} [LeaseStore σ]

theorem verdict?_launch (u : Setup σ) {v : Ending} (h : u.launch.verdict? = some v) :
    v ≠ .killed ∧ v ≠ .aborted := by
  rcases u.launch_cases with ⟨e, -, hl⟩ | ⟨i, -, ⟨problem, -, hl⟩ | ⟨config, -, ⟨f, -, hl⟩ |
    ⟨store, -, hl⟩⟩⟩ <;> rw [hl] at h <;> cases h <;> exact ⟨nofun, nofun⟩

/-- A verdict never changes. If someone listens, none is that the program was killed, and only
interrupts abort a command. -/
theorem verdict?_step (u : Setup σ) {p : Program σ} {e : Event σ}
    (h : e = .interrupt → p.listening = true) :
    (u.step p e).verdict? = p.verdict? ∨
      p.verdict? = none ∧ ∃ v, (u.step p e).verdict? = some v ∧ v ≠ .killed ∧
        (v = .aborted → e = .interrupt ∧ p.abortable = true) := by
  cases p with
  | launching =>
      cases e with
      | go =>
          cases hv : u.launch.verdict? with
          | none => exact Or.inl hv
          | some v =>
              obtain ⟨hkilled, haborted⟩ := u.verdict?_launch hv
              exact Or.inr ⟨rfl, v, hv, hkilled, fun h => absurd h haborted⟩
      | interrupt => cases h rfl
      | _ => exact Or.inl rfl
  | ended _ => exact Or.inl rfl
  | serving s => exact s.verdict?_step h

theorem verdict?_of_strike (u : Setup σ) {p : Program σ} (hlistens : p.listening = true)
    (habort : p.abortable = true) : (u.step p .interrupt).verdict? = some .aborted := by
  cases p with
  | serving s =>
      have hs : s.abortable = true := habort
      exact (Errand.verdict?_interrupt hlistens).trans (if_pos hs)
  | _ => cases habort

theorem verdict?_follow_of_some (u : Setup σ) {p : Program σ} {v : Ending}
    {events : List (Event σ)} (hheard : u.Heard p events) (h : p.verdict? = some v) :
    (u.follow p events).verdict? = some v := by
  induction events generalizing p with
  | nil => exact h
  | cons e rest ih =>
      obtain ⟨hfirst, hrest⟩ := heard_cons.mp hheard
      refine ih hrest ?_
      rcases u.verdict?_step hfirst with hsame | ⟨hopen, -⟩
      · rw [hsame, h]
      · rw [h] at hopen
        cases hopen

/-- Some interrupt of these comes while it can abort the command. -/
def Strikes (u : Setup σ) (p : Program σ) (events : List (Event σ)) : Prop :=
  ∃ n, events[n]? = some .interrupt ∧ (u.follow p (events.take n)).abortable = true

theorem strikes_cons {u : Setup σ} {p : Program σ} {e : Event σ} {rest : List (Event σ)} :
    u.Strikes p (e :: rest) ↔
      e = .interrupt ∧ p.abortable = true ∨ u.Strikes (u.step p e) rest :=
  Log.exists_getElem?_cons

theorem not_strikes_of_verdict? (u : Setup σ) {p : Program σ} {v : Ending}
    {events : List (Event σ)} (hheard : u.Heard p events) (h : p.verdict? = some v) :
    ¬ u.Strikes p events := by
  rintro ⟨n, -, habort⟩
  have hopen := Program.verdict?_of_abortable habort
  have htaken : u.Heard p (events.take n) := by
    intro m hm
    obtain ⟨hm', htake⟩ := Log.of_getElem?_take hm
    rw [htake]
    exact hheard m hm'
  rw [u.verdict?_follow_of_some htaken h] at hopen
  cases hopen

/-- If every interrupt is heard, no program is killed, and a command is aborted if and only if an
interrupt comes while it can be. -/
theorem verdict?_follow (u : Setup σ) {p : Program σ} {events : List (Event σ)}
    (hheard : u.Heard p events) (hopen : p.verdict? = none) :
    (u.follow p events).verdict? ≠ some .killed ∧
      ((u.follow p events).verdict? = some .aborted ↔ u.Strikes p events) := by
  induction events generalizing p with
  | nil =>
      rw [show u.follow p [] = p from rfl, hopen]
      refine ⟨nofun, nofun, ?_⟩
      rintro ⟨n, hn, -⟩
      cases hn
  | cons e rest ih =>
      obtain ⟨hfirst, hrest⟩ := heard_cons.mp hheard
      rw [strikes_cons, show u.follow p (e :: rest) = u.follow (u.step p e) rest from rfl]
      cases hv : (u.step p e).verdict? with
      | none =>
          obtain ⟨hkilled, haborted⟩ := ih hrest hv
          refine ⟨hkilled, haborted.trans ⟨Or.inr, ?_⟩⟩
          rintro (⟨rfl, habort⟩ | hlater)
          · rw [u.verdict?_of_strike (hfirst rfl) habort] at hv
            cases hv
          · exact hlater
      | some v =>
          -- The verdict is found in this step, and later interrupts find nothing to abort.
          have hnone := u.not_strikes_of_verdict? hrest hv
          rw [u.verdict?_follow_of_some hrest hv]
          rcases u.verdict?_step hfirst with hsame | ⟨-, w, hw, hkilled, haborted⟩
          · rw [hsame, hopen] at hv
            cases hv
          · cases hv.symm.trans hw
            refine ⟨fun h => hkilled (Option.some.inj h), fun h => ?_, ?_⟩
            · exact Or.inl (haborted (Option.some.inj h))
            · rintro (⟨rfl, habort⟩ | hlater)
              · exact hv.symm.trans (u.verdict?_of_strike (hfirst rfl) habort)
              · exact absurd hlater hnone

end Setup

/-! ## What comes of disconnecting -/

/-- A store with another way of being disconnected. -/
@[reducible]
def withDisconnect {σ : Type} [LeaseStore σ] (disconnect : σ → Except Failure Unit × σ) :
    LeaseStore σ where
  backend := LeaseStore.backend
  connect := LeaseStore.connect
  disconnect
  perform := LeaseStore.perform
  pass := LeaseStore.pass

/-- Two errands that differ in their stores at most, and only once they are over. -/
inductive Errand.Matches {σ : Type} (s : Errand σ) : Errand σ → Prop
  | same : s.Matches s
  | ended {e : Ending} (h : s.stage = .ended e) (store : σ) : s.Matches { s with store }

/-- The same of two programs. -/
inductive Program.Matches {σ : Type} : Program σ → Program σ → Prop
  | same (p : Program σ) : Program.Matches p p
  | serving {s s' : Errand σ} (h : s.Matches s') : Program.Matches (.serving s) (.serving s')

theorem Program.Matches.ending?_eq {σ : Type} {p p' : Program σ} (h : p.Matches p') :
    p'.ending? = p.ending? := by
  rcases h with _ | (_ | _) <;> rfl

section

variable {σ : Type} [LeaseStore σ] (disconnect : σ → Except Failure Unit × σ)

theorem Errand.Matches.step {s s' : Errand σ} (h : s.Matches s') (e : Event σ) :
    (s.step e).Matches (@Errand.step σ (withDisconnect disconnect) s' e) := by
  rcases s with ⟨command, script, store, stage, connected, listening, exchanges⟩
  cases h with
  | same =>
      cases e with
      | carryOut =>
          cases stage with
          | disconnecting ending => exact .ended rfl (disconnect store).2
          | _ => exact .same
      | _ => exact .same
  | ended hover store' =>
      -- Nothing is asked of the store any more.
      cases hover
      cases e with
      | elapse d => exact .ended rfl (LeaseStore.pass d store')
      | stir f => exact .ended rfl (f store')
      | listen =>
          simp only [Errand.step, Errand.listen, Stage.busy]
          exact .ended rfl store'
      | _ => exact .ended rfl store'

theorem Setup.matches_step (u : Setup σ) {p p' : Program σ} (h : p.Matches p') (e : Event σ) :
    (u.step p e).Matches (@Setup.step σ (withDisconnect disconnect) u p' e) := by
  cases h with
  | same =>
      cases p with
      | launching => cases e <;> exact .same _
      | ended _ => exact .same _
      | serving s => exact .serving (Errand.Matches.same.step disconnect e)
  | serving h => exact .serving (h.step disconnect e)

theorem Setup.matches_follow (u : Setup σ) {p p' : Program σ} (h : p.Matches p')
    (events : List (Event σ)) :
    (u.follow p events).Matches (@Setup.follow σ (withDisconnect disconnect) u p' events) := by
  induction events generalizing p p' with
  | nil => exact h
  | cons e rest ih => exact ih (u.matches_step disconnect h e)

end

end KeyLease.CommandLine
