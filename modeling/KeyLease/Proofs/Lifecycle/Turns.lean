import KeyLease.Proofs.Lifecycle.Scripts

set_option autoImplicit false

/-!
# Turns given at once

A machine gives turns one after the other before it looks up. `serveUntil_induction` is the
induction over that; what giving turns, letting time pass, asking and dropping do to the clock, to
the checks and to the queue follows from it.

Without checks, to let time pass in two stages is to let it pass at once
(`Settled.passUntil_passUntil`), so it makes no difference at which instants somebody looks in.
-/

namespace KeyLease.Lifecycle

namespace Machine

variable {m : Machine} {r : Request} {task target : Nat}

/-! ## Giving turns -/

/-- What holds of giving turns to nobody, and is kept when the one in front is refused, does its
work in time or is still at work in the end, holds of giving turns to any queue. -/
theorem serveUntil_induction {motive : Machine → List Request → Machine → Prop}
    (nobody : ∀ m : Machine, motive m [] { m with turn := none, waiting := [] })
    (refused : ∀ (m : Machine) r rest failure out,
      refusal? m.guarded r.transition = some failure →
        motive (m.note r.task (.ended (.error failure))) rest out → motive m (r :: rest) out)
    (ended : ∀ (m : Machine) r rest out, refusal? m.guarded r.transition = none →
      m.now + r.delay ≤ target →
        motive ({ m.begin r with now := m.now + r.delay }.finish r) rest out →
          motive m (r :: rest) out)
    (working : ∀ (m : Machine) r rest, refusal? m.guarded r.transition = none →
      target < m.now + r.delay →
        motive m (r :: rest) { m.begin r with turn := some ⟨r, m.now + r.delay⟩, waiting := rest })
    (m : Machine) (ws : List Request) : motive m ws (m.serveUntil target ws) := by
  induction ws generalizing m with
  | nil => exact nobody m
  | cons r rest ih =>
      cases hrefusal : refusal? m.guarded r.transition with
      | some failure =>
          simp only [serveUntil, hrefusal]
          exact refused m r rest failure _ hrefusal (ih _)
      | none =>
          rw [serveUntil_of_runs hrefusal]
          by_cases hends : m.now + r.delay ≤ target
          · rw [if_pos hends]
            exact ended m r rest _ hrefusal hends (ih _)
          · rw [if_neg hends]
            exact working m r rest hrefusal (Nat.lt_of_not_le hends)

theorem serveUntil_checks (target : Nat) (m : Machine) (ws : List Request) :
    (m.serveUntil target ws).checks = m.checks := by
  refine serveUntil_induction (motive := fun m _ out => out.checks = m.checks)
    (fun m => rfl) ?_ ?_ ?_ m ws
  · intro m r rest failure out _ ih
    exact ih
  · intro m r rest out _ _ ih
    simpa using ih
  · intro m r rest _ _
    exact begin_checks m r

/-- While turns are given time does not go back, and not past the instant. -/
theorem serveUntil_now (target : Nat) (hle : m.now ≤ target) (ws : List Request) :
    m.now ≤ (m.serveUntil target ws).now ∧ (m.serveUntil target ws).now ≤ target := by
  revert hle
  refine serveUntil_induction
    (motive := fun m _ out => m.now ≤ target → m.now ≤ out.now ∧ out.now ≤ target)
    (fun m hle => ⟨Nat.le_refl _, hle⟩) ?_ ?_ ?_ m ws
  · intro m r rest failure out _ ih
    exact ih
  · intro m r rest out _ hends ih hle
    have hout := ih (by simpa using hends)
    exact ⟨Nat.le_trans (Nat.le_add_right _ _) (by simpa using hout.1), hout.2⟩
  · intro m r rest _ _ hle
    simpa using hle

theorem begin_of_stale (m : Machine) (r : Request) (turn : Option Turn) (waiting : List Request) :
    ({ m with turn, waiting } : Machine).begin r = { m.begin r with turn, waiting } := by
  unfold begin
  cases r.transition <;> rfl

theorem finish_of_stale (m : Machine) (r : Request) (turn : Option Turn)
    (waiting : List Request) :
    ({ m with turn, waiting } : Machine).finish r = { m.finish r with turn, waiting } := by
  unfold finish
  cases r.transition <;> cases r.outcome <;> rfl

/-- Who has the turn and who waits is decided by the queue alone. -/
theorem serveUntil_of_stale (target : Nat) (m : Machine) (turn : Option Turn)
    (waiting ws : List Request) :
    serveUntil target { m with turn, waiting } ws = m.serveUntil target ws := by
  refine serveUntil_induction
    (motive := fun m ws out => serveUntil target { m with turn, waiting } ws = out)
    (fun m => rfl) ?_ ?_ ?_ m ws
  · intro m r rest failure out hrefusal ih
    simp only [serveUntil, hrefusal]
    exact ih
  · intro m r rest out hrefusal hends ih
    rw [serveUntil_of_runs (m := { m with turn, waiting }) hrefusal, if_pos hends,
      begin_of_stale]
    exact (congrArg (serveUntil target · rest) (finish_of_stale _ r turn waiting)).trans ih
  · intro m r rest hrefusal hlt
    rw [serveUntil_of_runs (m := { m with turn, waiting }) hrefusal, if_neg (Nat.not_le.mpr hlt),
      begin_of_stale]

/-! ## Letting time pass -/

/-- The work under way ends in time, and turns are given from there on. -/
theorem passUntil_of_due {t : Turn} (hturn : m.turn = some t) (hends : t.ends ≤ target) :
    m.passUntil target =
      let out := serveUntil target
        ({ m.answerChecks target with now := t.ends }.finish t.request) m.waiting
      { out with now := max out.now target } := by
  simp only [passUntil, answerChecks, hturn, if_pos hends]

/-- No work ends in time. -/
theorem passUntil_of_ahead (hahead : ∀ t, m.turn = some t → target < t.ends) :
    m.passUntil target = { m.answerChecks target with now := max m.now target } := by
  cases hturn : m.turn with
  | none => simp only [passUntil, answerChecks, hturn]
  | some t =>
      have hlate : ¬ t.ends ≤ target := Nat.not_le.mpr (hahead t hturn)
      simp only [passUntil, answerChecks, hturn, if_neg hlate]

theorem due_or_ahead (m : Machine) (target : Nat) :
    (∃ t, m.turn = some t ∧ t.ends ≤ target) ∨ ∀ t, m.turn = some t → target < t.ends := by
  by_cases hdue : ∃ t, m.turn = some t ∧ t.ends ≤ target
  · exact Or.inl hdue
  · exact Or.inr fun t ht => Nat.lt_of_not_le fun hle => hdue ⟨t, ht, hle⟩

theorem passUntil_checks (m : Machine) (target : Nat) :
    (m.passUntil target).checks = m.checks.filter (target < ·.ends) := by
  rcases m.due_or_ahead target with ⟨t, hturn, hends⟩ | hahead
  · rw [passUntil_of_due hturn hends]
    exact (serveUntil_checks _ _ _).trans (finish_checks _ _)
  · rw [passUntil_of_ahead hahead]
    rfl

/-- The clock comes to the instant, unless it is there already. -/
theorem Settled.passUntil_now (hs : m.Settled) (target : Nat) :
    (m.passUntil target).now = max m.now target := by
  rcases m.due_or_ahead target with ⟨t, hturn, hends⟩ | hahead
  · rw [passUntil_of_due hturn hends]
    have hle : m.now ≤ t.ends := hs.ahead t hturn
    have hserved := serveUntil_now target
      (m := { m.answerChecks target with now := t.ends }.finish t.request) (by simpa) m.waiting
    exact (Nat.max_eq_right hserved.2).trans (Nat.max_eq_right (Nat.le_trans hle hends)).symm
  · rw [passUntil_of_ahead hahead]

theorem answerChecks_of_none (hchecks : m.checks = []) (target : Nat) :
    m.answerChecks target = m := by
  simp only [answerChecks, hchecks, List.filter_nil, List.map_nil, List.append_nil]
  rw [← hchecks]

/-- Without checks, the work under way ends in time or goes on. -/
theorem passUntil_of_turn (target : Nat) (hchecks : m.checks = []) (hle : m.now ≤ target)
    {t : Turn} (hturn : m.turn = some t) :
    m.passUntil target =
      if t.ends ≤ target then
        { serveUntil target ({ m with now := t.ends }.finish t.request) m.waiting with
          now := target }
      else { m with now := target } := by
  by_cases hends : t.ends ≤ target
  · rw [if_pos hends, passUntil_of_due hturn hends, answerChecks_of_none hchecks]
    have hserved := (serveUntil_now target
      (m := { m with now := t.ends }.finish t.request) (by simpa) m.waiting).2
    simp only [Nat.max_eq_right hserved]
  · rw [if_neg hends, passUntil_of_ahead, answerChecks_of_none hchecks, Nat.max_eq_right hle]
    intro t' ht'
    cases hturn.symm.trans ht'
    exact Nat.lt_of_not_le hends

/-- Turns are given up to an instant and, from what has become of that, up to a later one. -/
theorem serveUntil_passUntil {target' : Nat} (hle : target ≤ target') (ws : List Request)
    (hchecks : m.checks = []) (hnow : m.now ≤ target) :
    ({ m.serveUntil target ws with now := target } : Machine).passUntil target' =
      { m.serveUntil target' ws with now := target' } := by
  revert hchecks hnow
  refine serveUntil_induction (motive := fun m ws out => m.checks = [] → m.now ≤ target →
    ({ out with now := target } : Machine).passUntil target' =
      { m.serveUntil target' ws with now := target' }) ?_ ?_ ?_ ?_ m ws
  · intro m hchecks _
    rw [passUntil_of_ahead (fun t ht => by cases ht), answerChecks_of_none (by exact hchecks)]
    simp only [serveUntil, Nat.max_eq_right hle]
  · intro m r rest failure out hrefusal ih hchecks hnow
    rw [ih hchecks hnow]
    simp only [serveUntil, hrefusal]
  · intro m r rest out hruns hends ih hchecks _
    rw [ih (by simpa using hchecks) (by simpa using hends), serveUntil_of_runs hruns,
      if_pos (Nat.le_trans hends hle)]
  · intro m r rest hruns hlt hchecks _
    have hpass := passUntil_of_turn target'
      (m := { m.begin r with
        now := target, turn := some ⟨r, m.now + r.delay⟩, waiting := rest })
      ((begin_checks m r).trans hchecks) hle rfl
    rw [serveUntil_of_runs hruns]
    refine hpass.trans ?_
    -- What is still at work at the first instant has ended by the second, or it has not.
    by_cases hends : m.now + r.delay ≤ target'
    · rw [if_pos hends, if_pos hends]
      have hstale := serveUntil_of_stale target'
        ({ m.begin r with now := m.now + r.delay }.finish r) (some ⟨r, m.now + r.delay⟩) rest rest
      rw [← finish_of_stale] at hstale
      exact congrArg (fun out : Machine => { out with now := target' }) hstale
    · rw [if_neg hends, if_neg hends]

/-- **Without checks it makes no difference where somebody looks in.** -/
theorem Settled.passUntil_passUntil (hs : m.Settled) (hchecks : m.checks = []) {target' : Nat}
    (hle : target ≤ target') :
    (m.passUntil target).passUntil target' = m.passUntil target' := by
  rcases m.due_or_ahead target with ⟨t, hturn, hends⟩ | hahead
  · have hnow : m.now ≤ target := Nat.le_trans (hs.ahead t hturn) hends
    rw [passUntil_of_turn _ hchecks hnow hturn, if_pos hends,
      passUntil_of_turn _ hchecks (Nat.le_trans hnow hle) hturn, if_pos (Nat.le_trans hends hle)]
    exact serveUntil_passUntil hle m.waiting ((finish_checks _ _).trans hchecks) (by simpa)
  · rw [passUntil_of_ahead hahead, answerChecks_of_none hchecks]
    rcases m.due_or_ahead target' with ⟨t, hturn, hends⟩ | hahead'
    · rw [passUntil_of_due hturn hends, answerChecks_of_none hchecks]
      refine (passUntil_of_due (m := { m with now := max m.now target }) hturn hends).trans ?_
      rw [answerChecks_of_none (by exact hchecks)]
    · rw [passUntil_of_ahead hahead', answerChecks_of_none hchecks]
      refine (passUntil_of_ahead (m := { m with now := max m.now target }) hahead').trans ?_
      rw [answerChecks_of_none (by exact hchecks), Nat.max_assoc, Nat.max_eq_right hle]

/-! ## Asking and dropping -/

/-- Who asks takes a place, and turns are given if nobody has one. -/
theorem request_eq (m : Machine) (r : Request) :
    m.request r =
      if m.turn.isSome then m.ask r else (m.ask r).serveUntil m.now (m.ask r).waiting := by
  unfold request
  cases hturn : m.turn with
  | some t => simp [ask, hturn]
  | none => exact (serveUntil_of_stale _ m m.turn (m.ask r).waiting (m.ask r).waiting).symm

/-- Who is dropped leaves, and turns are given if that sets the turn free. -/
theorem drop_eq (m : Machine) (task : Nat) :
    m.drop task =
      if m.turn.any (·.request.task = task) then (m.cancel task).serveUntil m.now m.waiting
      else m.cancel task := by
  unfold drop cancel
  by_cases hturn : m.turn.any (·.request.task = task)
  · simp only [if_pos hturn]
    exact (serveUntil_of_stale _ (m.note task .dropped) none m.waiting m.waiting).symm
  · simp only [if_neg hturn]

theorem request_checks (m : Machine) (r : Request) : (m.request r).checks = m.checks := by
  rw [request_eq]
  split
  · rfl
  · exact serveUntil_checks _ _ _

theorem mem_checks_drop {k : Check} (hk : k ∈ (m.drop task).checks) : k ∈ m.checks := by
  rw [drop_eq] at hk
  split at hk
  · rw [serveUntil_checks] at hk
    exact mem_checks_cancel hk
  · exact mem_checks_cancel hk

/-! ## The tasks that ask for transitions -/

/-- All tasks that have the turn or wait for it have numbers of some kind. -/
structure Calls (p : Nat → Prop) (m : Machine) : Prop where
  turn : ∀ t, m.turn = some t → p t.request.task
  waiting : ∀ r ∈ m.waiting, p r.task

namespace Calls

variable {p : Nat → Prop}

theorem start (p : Nat → Prop) : Calls p {} := ⟨nofun, nofun⟩

theorem serveUntil {ws : List Request} (hws : ∀ r ∈ ws, p r.task) (target : Nat) (m : Machine) :
    Calls p (m.serveUntil target ws) := by
  revert hws
  refine serveUntil_induction (motive := fun _ ws out => (∀ r ∈ ws, p r.task) → Calls p out)
    (fun m _ => ⟨nofun, nofun⟩) ?_ ?_ ?_ m ws
  · intro m r rest failure out _ ih hws
    exact ih fun r' hr' => hws r' (List.mem_cons_of_mem _ hr')
  · intro m r rest out _ _ ih hws
    exact ih fun r' hr' => hws r' (List.mem_cons_of_mem _ hr')
  · intro m r rest _ _ hws
    refine ⟨fun t ht => ?_, fun r' hr' => hws r' (List.mem_cons_of_mem _ hr')⟩
    cases ht
    exact hws r List.mem_cons_self

theorem ask (hc : m.Calls p) (hr : p r.task) : (m.ask r).Calls p := by
  refine ⟨hc.turn, fun r' hr' => ?_⟩
  rcases List.mem_append.mp hr' with hr' | hr'
  · exact hc.waiting r' hr'
  · rwa [List.mem_singleton.mp hr']

theorem request (hc : m.Calls p) (hr : p r.task) : (m.request r).Calls p := by
  rw [request_eq]
  split
  · exact hc.ask hr
  · exact serveUntil (hc.ask hr).waiting _ _

theorem dropCheck (hc : m.Calls p) (task : Nat) : (m.dropCheck task).Calls p := by
  unfold Machine.dropCheck
  split <;> exact ⟨hc.turn, hc.waiting⟩

theorem cancel (hc : m.Calls p) (task : Nat) : (m.cancel task).Calls p := by
  unfold Machine.cancel
  split
  · exact ⟨nofun, hc.waiting⟩
  · split
    · exact ⟨hc.turn, fun r hr => hc.waiting r (List.mem_filter.mp hr).1⟩
    · exact hc.dropCheck task

theorem drop (hc : m.Calls p) (task : Nat) : (m.drop task).Calls p := by
  rw [drop_eq]
  split
  · exact serveUntil hc.waiting _ _
  · exact hc.cancel task

theorem check (hc : m.Calls p) (task : Nat) (limit : Duration) (delay : Nat)
    (outcome : Except Failure Unit) : (m.check task limit delay outcome).Calls p := by
  unfold Machine.check
  split <;> exact ⟨hc.turn, hc.waiting⟩

theorem passUntil (hc : m.Calls p) (target : Nat) : (m.passUntil target).Calls p := by
  rcases m.due_or_ahead target with ⟨t, hturn, hends⟩ | hahead
  · rw [passUntil_of_due hturn hends]
    have hserved := serveUntil hc.waiting target
      ({ m.answerChecks target with now := t.ends }.finish t.request)
    exact ⟨hserved.turn, hserved.waiting⟩
  · rw [passUntil_of_ahead hahead]
    exact ⟨hc.turn, hc.waiting⟩

theorem take (hc : m.Calls p) : m.take.Calls p := by
  unfold Machine.take
  split
  · rename_i r rest _ hfront
    have hrest : ∀ r' ∈ rest, p r'.task := fun r' hr' => hc.waiting r' (by simp [hfront, hr'])
    split
    · exact ⟨hc.turn, hrest⟩
    · refine ⟨fun t ht => ?_, hrest⟩
      cases ht
      exact hc.waiting r (by simp [hfront])
  · exact hc

theorem complete (hc : m.Calls p) : m.complete.Calls p := by
  unfold Machine.complete
  split
  · exact ⟨nofun, by simpa using hc.waiting⟩
  · exact hc

/-- A task of another kind neither has the turn nor waits for it. -/
theorem absent (hc : m.Calls p) (hno : ¬ p task) :
    ¬ m.turn.any (·.request.task = task) ∧ ¬ m.waiting.any (·.task = task) := by
  refine ⟨fun hany => ?_, fun hany => ?_⟩
  · obtain ⟨t, ht, htask⟩ := (Option.any_eq_true _ _).mp hany
    exact hno (of_decide_eq_true htask ▸ hc.turn t ht)
  · obtain ⟨r, hr, htask⟩ := List.any_eq_true.mp hany
    exact hno (of_decide_eq_true htask ▸ hc.waiting r hr)

theorem drop_of_not (hc : m.Calls p) (hno : ¬ p task) : m.drop task = m.dropCheck task := by
  rw [Machine.drop, if_neg (hc.absent hno).1, if_neg (hc.absent hno).2]

theorem cancel_of_not (hc : m.Calls p) (hno : ¬ p task) : m.cancel task = m.dropCheck task := by
  rw [Machine.cancel, if_neg (hc.absent hno).1, if_neg (hc.absent hno).2]

end Calls

/-! ## Nothing is overdue -/

/-- Whatever work or check is under way ends later. -/
structure Prompt (m : Machine) : Prop where
  turn : ∀ t, m.turn = some t → m.now < t.ends
  checks : ∀ k ∈ m.checks, m.now < k.ends

theorem request_now (m : Machine) (r : Request) : (m.request r).now = m.now := by
  rw [request_eq]
  split
  · rfl
  · have hserved := serveUntil_now m.now (m := m.ask r) (Nat.le_refl _) (m.ask r).waiting
    exact Nat.le_antisymm hserved.2 hserved.1

theorem cancel_now (m : Machine) (task : Nat) : (m.cancel task).now = m.now := by
  unfold cancel dropCheck
  repeat' split
  all_goals rfl

theorem drop_now (m : Machine) (task : Nat) : (m.drop task).now = m.now := by
  rw [drop_eq]
  split
  · have hnow := m.cancel_now task
    have hserved := serveUntil_now m.now (Nat.le_of_eq hnow) m.waiting
    exact Nat.le_antisymm hserved.2 (hnow ▸ hserved.1)
  · exact m.cancel_now task

theorem check_now (m : Machine) (task : Nat) (limit : Duration) (delay : Nat)
    (outcome : Except Failure Unit) : (m.check task limit delay outcome).now = m.now := by
  unfold check
  split <;> rfl

/-- Work that is still under way when turns have been given ends later than the instant. -/
theorem turn_serveUntil {target : Nat} {ws : List Request} {t : Turn}
    (ht : (m.serveUntil target ws).turn = some t) : target < t.ends := by
  rcases m.serveUntil_cases target ws with ⟨hnone, -⟩ | ⟨t', hsome, -, hlt⟩
  · exact absurd (hnone.symm.trans ht) nofun
  · exact Option.some.inj (hsome.symm.trans ht) ▸ hlt

namespace Prompt

theorem start : Prompt {} := ⟨nofun, nofun⟩

theorem request (hp : m.Prompt) (r : Request) : (m.request r).Prompt := by
  constructor
  · rw [request_now, request_eq]
    split
    · exact hp.turn
    · exact fun t => turn_serveUntil
  · rw [request_now, request_checks]
    exact hp.checks

theorem drop (hp : m.Prompt) (task : Nat) : (m.drop task).Prompt := by
  constructor
  · rw [drop_now, drop_eq]
    split
    · exact fun t => turn_serveUntil
    · rename_i hturn
      intro t ht
      unfold cancel dropCheck at ht
      rw [if_neg hturn] at ht
      refine hp.turn t ?_
      split at ht
      · exact ht
      · split at ht <;> exact ht
  · rw [drop_now]
    exact fun k hk => hp.checks k (mem_checks_drop hk)

theorem check (hp : m.Prompt) (task : Nat) (limit : Duration) (delay : Nat)
    (outcome : Except Failure Unit) : (m.check task limit delay outcome).Prompt := by
  unfold Machine.check
  split
  · exact ⟨hp.turn, fun k hk => of_decide_eq_true (List.mem_filter.mp hk).2⟩
  · exact ⟨hp.turn, hp.checks⟩

theorem passUntil (hp : m.Prompt) (hs : m.Settled) (target : Nat) :
    (m.passUntil target).Prompt := by
  constructor
  · rw [hs.passUntil_now]
    intro t ht
    rcases m.due_or_ahead target with ⟨t', hturn, hends⟩ | hahead
    · rw [passUntil_of_due hturn hends] at ht
      have hnow : m.now ≤ target := Nat.le_trans (hs.ahead t' hturn) hends
      exact (Nat.max_eq_right hnow).symm ▸ turn_serveUntil ht
    · rw [passUntil_of_ahead hahead] at ht
      exact Nat.max_lt.mpr ⟨hp.turn t ht, hahead t ht⟩
  · rw [hs.passUntil_now, passUntil_checks]
    intro k hk
    obtain ⟨hk, hlt⟩ := List.mem_filter.mp hk
    exact Nat.max_lt.mpr ⟨hp.checks k hk, of_decide_eq_true hlt⟩

end Prompt

end Machine

end KeyLease.Lifecycle
