import KeyLease.Proofs.Program.Launch

set_option autoImplicit false

/-!
# What a store has been asked for

What a program has asked of its store is told by the store, not by the program: a `Noted` store
notes each of its own operations with what came of it. Nothing that is asked for twice, or left out,
goes unnoticed, and a program does with such a store what it does without (`Setup.plain_run`).

`Errand.Kept` says what is noted at each stage of an errand, and every step keeps it
(`Errand.Kept.step`).
-/

namespace KeyLease.CommandLine

/-! ## Stores that take notes -/

/-- What a store has done, and what came of it. -/
inductive Deed
  | connect (result : Except Failure Unit)
  | call (c : Call) (a : Answer)
  | disconnect (result : Except Failure Unit)

/-- A store, and what it has done. -/
structure Noted (σ : Type) where
  store : σ
  deeds : List Deed := []

instance {σ : Type} [LeaseStore σ] : LeaseStore (Noted σ) where
  backend s := LeaseStore.backend s.store
  connect s :=
    let (result, store) := LeaseStore.connect s.store
    (result, { store, deeds := s.deeds ++ [.connect result] })
  disconnect s :=
    let (result, store) := LeaseStore.disconnect s.store
    (result, { store, deeds := s.deeds ++ [.disconnect result] })
  perform c s :=
    let (answer, store) := LeaseStore.perform c s.store
    (answer, { store, deeds := s.deeds ++ [.call c answer] })
  pass d s := { s with store := LeaseStore.pass d s.store }

/-- The same event where notes are taken. What others do to the store is not noted. -/
def Event.noted {σ : Type} : Event σ → Event (Noted σ)
  | .go => .go
  | .carryOut => .carryOut
  | .listen => .listen
  | .slip => .slip
  | .interrupt => .interrupt
  | .elapse d => .elapse d
  | .stir f => .stir fun s => { s with store := f s.store }

/-- An errand without the notes of its store. -/
def Errand.plain {σ : Type} (s : Errand (Noted σ)) : Errand σ where
  command := s.command
  script := s.script
  store := s.store.store
  stage := s.stage
  connected := s.connected
  listening := s.listening
  exchanges := s.exchanges

/-- A program without the notes of its store. -/
def Program.plain {σ : Type} : Program (Noted σ) → Program σ
  | .launching => .launching
  | .ended e => .ended e
  | .serving s => .serving s.plain

/-- The same program, with a store that takes notes. -/
def Setup.noted {σ : Type} (u : Setup σ) : Setup (Noted σ) where
  env := u.env
  files := u.files
  words := u.words
  opener config poolSize := (u.opener config poolSize).map fun store => { store }

/-- What the store of a program has done, if one was opened. -/
def Setup.deeds? {σ : Type} [LeaseStore σ] (u : Setup σ) (events : List (Event σ)) :
    Option (List Deed) :=
  (u.noted.run (events.map Event.noted)).store?.map (·.deeds)

/-! ## Notes change nothing -/

section

variable {σ : Type}

theorem Errand.plain_go (s : Errand (Noted σ)) : s.go.plain = s.plain.go := by
  rcases s with ⟨command, script, store, stage, connected, listening, exchanges⟩
  cases stage with
  | ready rest => cases rest <;> rfl
  | holding left rest => cases left <;> rfl
  | _ => rfl

theorem Errand.plain_carryOut [LeaseStore σ] (s : Errand (Noted σ)) :
    s.carryOut.plain = s.plain.carryOut := by
  rcases s with ⟨command, script, ⟨store, deeds⟩, stage, connected, listening, exchanges⟩
  cases stage with
  | connecting =>
      simp only [carryOut, plain, LeaseStore.connect]
      rcases LeaseStore.connect store with ⟨f | ⟨⟩, after⟩ <;> rfl
  | _ => rfl

theorem Errand.plain_interrupt (s : Errand (Noted σ)) : s.interrupt.plain = s.plain.interrupt := by
  rcases s with ⟨command, script, store, stage, connected, listening, exchanges⟩
  unfold interrupt hear
  cases listening <;> cases hself : command.handlesInterrupt <;> cases stage <;>
    simp [plain, Stage.busy, hself]

/-- A step with notes is the step without. -/
theorem Errand.plain_step [LeaseStore σ] (s : Errand (Noted σ)) (e : Event σ) :
    (s.step e.noted).plain = s.plain.step e := by
  cases e with
  | go => exact s.plain_go
  | carryOut => exact s.plain_carryOut
  | listen =>
      by_cases hdeaf : s.stage.busy ∧ ¬ s.command.handlesInterrupt
      · simp only [Event.noted, step, listen, if_pos hdeaf]
        exact (if_pos hdeaf).symm
      · simp only [Event.noted, step, listen, if_neg hdeaf]
        exact (if_neg hdeaf).symm
  | slip =>
      rcases s with ⟨command, script, store, stage, connected, listening, exchanges⟩
      cases stage with
      | arming left rest => cases left <;> rfl
      | _ => rfl
  | interrupt => exact s.plain_interrupt
  | elapse d => rfl
  | stir f => rfl

end

section

variable {σ : Type} [LeaseStore σ]

theorem Setup.plain_launch (u : Setup σ) : u.noted.launch.plain = u.launch := by
  unfold launch
  simp only [noted]
  cases Invocation.read u.env u.words with
  | error e => rfl
  | ok i =>
      cases hconfig : i.config u.files with
      | error problem => simp only [hconfig, Program.plain]
      | ok config =>
          cases hopen : u.opener config i.poolSize with
          | error f => simp only [hconfig, hopen, Except.map, Program.plain]
          | ok store =>
              simp only [hconfig, hopen, Except.map, Program.plain]
              rfl

theorem Setup.plain_step (u : Setup σ) (p : Program (Noted σ)) (e : Event σ) :
    (u.noted.step p e.noted).plain = u.step p.plain e := by
  cases p with
  | launching =>
      cases e with
      | go => exact u.plain_launch
      | _ => rfl
  | ended _ => rfl
  | serving s => exact congrArg Program.serving (s.plain_step e)

theorem Setup.plain_follow (u : Setup σ) (p : Program (Noted σ)) (events : List (Event σ)) :
    (u.noted.follow p (events.map Event.noted)).plain = u.follow p.plain events := by
  induction events generalizing p with
  | nil => rfl
  | cons e rest ih =>
      have hfirst := u.plain_step p e
      exact (ih (u.noted.step p e.noted)).trans (by rw [hfirst]; rfl)

/-- A program does with a store that takes notes what it does without the notes. -/
theorem Setup.plain_run (u : Setup σ) (events : List (Event σ)) :
    (u.noted.run (events.map Event.noted)).plain = u.run events :=
  u.plain_follow .launching events

end

/-! ## What is noted -/

/-- What a store notes that is connected and gives these answers. -/
def Deed.served (told : List (Call × Answer)) : List Deed :=
  .connect (.ok ()) :: told.map fun exchange => .call exchange.1 exchange.2

theorem Deed.served_snoc (told : List (Call × Answer)) (c : Call) (a : Answer) :
    served (told ++ [(c, a)]) = served told ++ [.call c a] := by
  simp [served]

namespace Errand

variable {σ : Type}

/-- What is noted at each stage. A command that is aborted may not have seen the last answer.
Nothing is said of a program that was killed. -/
def Kept (s : Errand (Noted σ)) : Prop :=
  match s.stage with
  | .opened | .connecting => s.store.deeds = []
  | .ready _ | .asking _ _ | .arming _ _ | .holding _ _ => s.store.deeds = Deed.served s.exchanges
  | .answered c a _ => s.store.deeds = Deed.served (s.exchanges ++ [(c, a)])
  | .closing e | .disconnecting e => ∃ told, s.store.deeds = Deed.served told ∧ s.Concludes told e
  | .ended (.unconnected f) => s.store.deeds = [.connect (.error f)]
  | .ended .killed => True
  | .ended e =>
      ∃ told r, s.store.deeds = Deed.served told ++ [.disconnect r] ∧ s.Concludes told e

variable {s : Errand (Noted σ)}

theorem Kept.go (hacc : s.Accounted) (h : s.Kept) : s.go.Kept := by
  rcases s with ⟨command, script, store, stage, connected, listening, exchanges⟩
  cases stage with
  | ready rest =>
      cases rest with
      | done r => exact ⟨exchanges, h, hacc.2⟩
      | _ => exact h
  | holding left rest => cases left <;> exact h
  | _ => exact h

theorem Kept.carryOut [LeaseStore σ] (hacc : s.Accounted) (h : s.Kept) : s.carryOut.Kept := by
  rcases s with ⟨command, script, ⟨store, deeds⟩, stage, connected, listening, exchanges⟩
  cases stage with
  | connecting =>
      -- Nothing has been noted so far, and the command has been told nothing.
      obtain rfl : deeds = [] := h
      obtain rfl : exchanges = [] := hacc.2
      simp only [Errand.carryOut, LeaseStore.connect]
      rcases LeaseStore.connect store with ⟨f | ⟨⟩, after⟩ <;> rfl
  | asking c next =>
      obtain rfl : deeds = Deed.served exchanges := h
      exact (Deed.served_snoc exchanges c _).symm
  | disconnecting e =>
      obtain ⟨told, rfl, hends⟩ : ∃ told, deeds = Deed.served told ∧ Concludes _ told e := h
      cases e with
      | finished r => exact ⟨told, _, rfl, hends⟩
      | aborted => exact ⟨told, _, rfl, hends⟩
      | _ => exact hends.elim
  | _ => exact h

theorem Kept.hear (hacc : s.Accounted) (h : s.Kept) : s.hear.Kept := by
  rcases s with ⟨command, script, store, stage, connected, listening, exchanges⟩
  unfold Errand.hear
  split
  · -- The command is aborted. A call that is on its way to the store is not noted.
    rename_i habort
    have hdeaf : command.handlesInterrupt = false := by simpa using habort.2
    cases stage with
    | ready _ | asking _ _ | arming _ _ | holding _ _ => exact ⟨exchanges, h, hdeaf, _, hacc.2⟩
    | answered c a next =>
        -- The store has answered, and the command does not see it.
        exact ⟨exchanges ++ [(c, a)], h, hdeaf, _, hacc.2.answered a⟩
    | _ => simp [Stage.busy] at habort
  · cases stage <;> exact h

theorem Kept.interrupt (hacc : s.Accounted) (h : s.Kept) : s.interrupt.Kept := by
  unfold Errand.interrupt
  split
  · exact h
  · split
    · exact h.hear hacc
    · trivial

/-- Every step keeps the notes. -/
theorem Kept.step [LeaseStore σ] (hacc : s.Accounted) (h : s.Kept) (e : Event σ) :
    (s.step e.noted).Kept := by
  cases e with
  | go => exact h.go hacc
  | carryOut => exact h.carryOut hacc
  | listen =>
      simp only [Event.noted, Errand.step, Errand.listen]
      split <;> exact h
  | slip =>
      rcases s with ⟨command, script, store, stage, connected, listening, exchanges⟩
      cases stage with
      | arming left rest => cases left <;> exact h
      | _ => exact h
  | interrupt => exact h.interrupt hacc
  | elapse d =>
      rcases s with ⟨command, script, store, stage, connected, listening, exchanges⟩
      cases stage <;> exact h
  | stir f => exact h

/-- All that a store can have noted whose program was not killed. -/
theorem Kept.cases (h : s.Kept) (hkilled : s.stage ≠ .ended .killed) :
    s.store.deeds = [] ∧ s.stage.ending? = none ∨
      (∃ f, s.store.deeds = [.connect (.error f)] ∧ s.stage = .ended (.unconnected f)) ∨
      (∃ told, s.store.deeds = Deed.served told ∧ s.stage.ending? = none) ∨
      ∃ told r e, s.store.deeds = Deed.served told ++ [.disconnect r] ∧ s.stage = .ended e ∧
        s.Concludes told e := by
  rcases s with ⟨command, script, ⟨store, deeds⟩, stage, connected, listening, exchanges⟩
  cases stage with
  | opened | connecting => exact Or.inl ⟨h, rfl⟩
  | ready _ | asking _ _ | arming _ _ | holding _ _ | answered _ _ _ =>
      exact Or.inr (Or.inr (Or.inl ⟨_, h, rfl⟩))
  | closing e | disconnecting e =>
      obtain ⟨told, hdeeds, -⟩ := h
      exact Or.inr (Or.inr (Or.inl ⟨told, hdeeds, rfl⟩))
  | ended e =>
      cases e with
      | unconnected f => exact Or.inr (Or.inl ⟨f, h, rfl⟩)
      | killed => exact absurd rfl hkilled
      | _ =>
          obtain ⟨told, r, hdeeds, hends⟩ := h
          exact Or.inr (Or.inr (Or.inr ⟨told, r, _, hdeeds, rfl, hends⟩))

/-- A store is disconnected only when the command is over, and when it carries out what it has been
asked for. -/
theorem disconnecting_of_noted [LeaseStore σ] {e : Event σ} {r : Except Failure Unit}
    (h : (s.step e.noted).store.deeds = s.store.deeds ++ [.disconnect r]) :
    e = .carryOut ∧ ∃ ending, s.stage = .disconnecting ending := by
  -- Most steps leave the store alone, or do something to it that is not noted.
  have hsame : (s.step e.noted).store.deeds ≠ s.store.deeds := by simp [h]
  cases e with
  | carryOut =>
      rcases s with ⟨command, script, ⟨store, deeds⟩, stage, connected, listening, exchanges⟩
      cases stage with
      | disconnecting ending => exact ⟨rfl, ending, rfl⟩
      | connecting =>
          simp only [Event.noted, step, Errand.carryOut, LeaseStore.connect] at h
          revert h
          rcases LeaseStore.connect store with ⟨f | ⟨⟩, after⟩ <;> simp
      | asking c next => simp [Event.noted, step, Errand.carryOut, LeaseStore.perform] at h
      | _ => exact absurd rfl hsame
  | elapse d => exact absurd rfl hsame
  | stir f => exact absurd rfl hsame
  | go => exact absurd (congrArg (·.deeds) (step_store s (Or.inl rfl))) hsame
  | listen => exact absurd (congrArg (·.deeds) (step_store s (by simp [Event.noted]))) hsame
  | slip => exact absurd (congrArg (·.deeds) (step_store s (by simp [Event.noted]))) hsame
  | interrupt => exact absurd (congrArg (·.deeds) (step_store s (by simp [Event.noted]))) hsame

end Errand

namespace Setup

variable {σ : Type} [LeaseStore σ]

/-- The notes of a program are kept wherever it stands. -/
def Kept : Program (Noted σ) → Prop
  | .serving s => s.Accounted ∧ s.Kept
  | _ => True

theorem kept_launch (u : Setup σ) : Kept u.noted.launch := by
  rcases u.noted.launch_cases with ⟨e, -, hl⟩ | ⟨i, -, ⟨problem, -, hl⟩ | ⟨config, -, hrest⟩⟩
  · rw [hl]
    trivial
  · rw [hl]
    trivial
  · rcases hrest with ⟨f, -, hl⟩ | ⟨store, hopen, hl⟩
    · rw [hl]
      trivial
    · rw [hl]
      have hfresh : store.deeds = [] := by
        cases hopened : u.opener config i.poolSize with
        | error f => simp [noted, hopened, Except.map] at hopen
        | ok opened =>
            simp only [noted, hopened, Except.map, Except.ok.injEq] at hopen
            exact hopen ▸ rfl
      exact ⟨⟨rfl, rfl⟩, hfresh⟩

theorem kept_step (u : Setup σ) {p : Program (Noted σ)} (h : Kept p) (e : Event σ) :
    Kept (u.noted.step p e.noted) := by
  cases p with
  | launching =>
      cases e with
      | go => exact u.kept_launch
      | _ => trivial
  | ended _ => exact h
  | serving s => exact ⟨h.1.step e.noted, h.2.step h.1 e⟩

theorem kept_follow (u : Setup σ) {p : Program (Noted σ)} (h : Kept p) (events : List (Event σ)) :
    Kept (u.noted.follow p (events.map Event.noted)) := by
  induction events generalizing p with
  | nil => exact h
  | cons e rest ih => exact ih (u.kept_step h e)

/-- A store that has taken notes is that of an errand, and the notes are kept. -/
theorem serving_of_deeds? {u : Setup σ} {events : List (Event σ)} {deeds : List Deed}
    (h : u.deeds? events = some deeds) :
    ∃ t : Errand (Noted σ), u.noted.run (events.map Event.noted) = .serving t ∧
      u.run events = .serving t.plain ∧ t.Kept ∧ t.store.deeds = deeds := by
  have hkept := u.kept_follow (p := .launching) trivial events
  have hplain := u.plain_run events
  unfold deeds? at h
  cases hp : u.noted.run (events.map Event.noted) with
  | serving t =>
      rw [hp] at h hplain
      rw [show u.noted.follow .launching (events.map Event.noted) = .serving t from hp] at hkept
      exact ⟨t, rfl, hplain.symm, hkept.2, Option.some.inj h⟩
  | _ =>
      rw [hp] at h
      cases h

end Setup

end KeyLease.CommandLine
