import KeyLease.Proofs.Lifecycle.Course

set_option autoImplicit false

/-!
# A machine takes the steps of a course

Whatever a machine does at once, a course does in some steps: `Course.reaches_request`,
`Course.reaches_passUntil` and `Course.reaches_drop`. So every scripted run of a lifecycle is a
course: `Timeline.exists_moves`. What holds in every course holds whenever a script looks.

Between its operations a machine is `Settled`: nobody waits for a turn that nobody has, and the work
under way has not ended yet.
-/

namespace KeyLease.Lifecycle

/-- Nobody waits for a turn that nobody has, and the work under way has not ended yet. -/
structure Machine.Settled (m : Machine) : Prop where
  idle : m.turn = none → m.waiting = []
  ahead : ∀ t, m.turn = some t → m.now ≤ t.ends

namespace Machine

variable {m : Machine} {r : Request}

/-- What is done when work begins does not look at the queue. -/
theorem take_of_runs (hruns : refusal? m.guarded r.transition = none) (rest : List Request) :
    ({ m with turn := none, waiting := r :: rest } : Machine).take =
      { m.begin r with turn := some ⟨r, m.now + r.delay⟩, waiting := rest } := by
  simp only [take, hruns]
  unfold begin
  cases r.transition <;> rfl

theorem take_of_refused {failure : Failure}
    (hrefused : refusal? m.guarded r.transition = some failure) (rest : List Request) :
    ({ m with turn := none, waiting := r :: rest } : Machine).take =
      { m.note r.task (.ended (.error failure)) with turn := none, waiting := rest } := by
  simp only [take, hrefused]
  rfl

/-- Nor does what is done when it ends. -/
theorem complete_of_turn {t : Turn} (ht : t.request = r) (waiting : List Request) :
    ({ m with turn := some t, waiting } : Machine).complete =
      { m.finish r with turn := none, waiting } := by
  subst ht
  simp only [complete]
  unfold finish
  cases t.request.transition <;> cases t.request.outcome <;> rfl

theorem serveUntil_of_runs (hruns : refusal? m.guarded r.transition = none) (target : Nat)
    (rest : List Request) :
    m.serveUntil target (r :: rest) =
      if m.now + r.delay ≤ target then
        serveUntil target ({ m.begin r with now := m.now + r.delay }.finish r) rest
      else { m.begin r with turn := some ⟨r, m.now + r.delay⟩, waiting := rest } := by
  simp only [serveUntil, hruns, begin_now]

/-- Turns are given until the queue is empty or some work ends later. -/
theorem serveUntil_cases (target : Nat) (ws : List Request) (m : Machine) :
    (m.serveUntil target ws).turn = none ∧ (m.serveUntil target ws).waiting = [] ∨
      ∃ t, (m.serveUntil target ws).turn = some t ∧ (m.serveUntil target ws).now ≤ t.ends ∧
        target < t.ends := by
  induction ws generalizing m with
  | nil => exact Or.inl ⟨rfl, rfl⟩
  | cons r rest ih =>
      cases hrefusal : refusal? m.guarded r.transition with
      | some failure =>
          simp only [serveUntil, hrefusal]
          exact ih _
      | none =>
          rw [serveUntil_of_runs hrefusal]
          by_cases hends : m.now + r.delay ≤ target
          · rw [if_pos hends]
            exact ih _
          · rw [if_neg hends]
            exact Or.inr ⟨_, rfl, by simp, Nat.lt_of_not_le hends⟩

theorem serveUntil_settled (target : Nat) (ws : List Request) (m : Machine) :
    (m.serveUntil target ws).Settled := by
  rcases m.serveUntil_cases target ws with ⟨hturn, hwaiting⟩ | ⟨t, hturn, hle, -⟩
  · exact ⟨fun _ => hwaiting, fun t ht => absurd (hturn.symm.trans ht) nofun⟩
  · exact ⟨fun hnone => absurd (hturn.symm.trans hnone) nofun,
      fun t' ht' => Option.some.inj (hturn.symm.trans ht') ▸ hle⟩

namespace Settled

theorem request (hs : m.Settled) (r : Request) : (m.request r).Settled := by
  unfold Machine.request
  split
  · rename_i t hturn
    exact ⟨fun hnone => absurd (hturn.symm.trans hnone) nofun, hs.ahead⟩
  · exact serveUntil_settled _ _ _

theorem drop (hs : m.Settled) (task : Nat) : (m.drop task).Settled := by
  unfold Machine.drop
  split
  · exact serveUntil_settled _ _ _
  · split
    · refine ⟨fun hnone => ?_, hs.ahead⟩
      rw [note_waiting, hs.idle hnone]
      rfl
    · unfold dropCheck
      split
      · exact ⟨hs.idle, hs.ahead⟩
      · exact hs

theorem check (hs : m.Settled) (task : Nat) (limit : Duration) (delay : Nat)
    (outcome : Except Failure Unit) : (m.check task limit delay outcome).Settled := by
  unfold Machine.check
  split <;> exact ⟨hs.idle, hs.ahead⟩

theorem passUntil (hs : m.Settled) (target : Nat) : (m.passUntil target).Settled := by
  unfold Machine.passUntil
  cases hturn : m.turn with
  | none =>
      refine ⟨fun _ => ?_, fun t ht => ?_⟩
      · simp only [answerChecks, hturn]
        exact hs.idle hturn
      · simp only [answerChecks, hturn] at ht
        cases ht
  | some t =>
      simp only [answerChecks, hturn]
      by_cases hends : t.ends ≤ target
      · simp only [if_pos hends]
        rcases serveUntil_cases target m.waiting _ with ⟨hnone, hwaiting⟩ | ⟨t', hsome, hle, hlt⟩
        · exact ⟨fun _ => hwaiting, fun t' ht' => absurd (hnone.symm.trans ht') nofun⟩
        · refine ⟨fun hnone => absurd (hsome.symm.trans hnone) nofun, fun t'' ht'' => ?_⟩
          cases hsome.symm.trans ht''
          exact Nat.max_le.mpr ⟨hle, Nat.le_of_lt hlt⟩
      · simp only [if_neg hends]
        refine ⟨nofun, fun t' ht' => ?_⟩
        cases ht'
        exact Nat.max_le.mpr ⟨hs.ahead t hturn, Nat.le_of_not_le hends⟩

end Settled

end Machine

/-- A course comes from one state to another. -/
def Course.Reaches (c c' : Course) : Prop := ∃ moves, c.run moves = c'

namespace Course

theorem Reaches.refl (c : Course) : Reaches c c := ⟨[], rfl⟩

theorem Reaches.step (c : Course) (mv : Move) : Reaches c (c.step mv) := ⟨[mv], rfl⟩

theorem Reaches.trans {c c' c'' : Course} (h : Reaches c c') (h' : Reaches c' c'') :
    Reaches c c'' := by
  obtain ⟨moves, rfl⟩ := h
  obtain ⟨moves', rfl⟩ := h'
  exact ⟨moves ++ moves', run_append c moves moves'⟩

theorem reaches_take (c : Course) : Reaches c { c with machine := c.machine.take } :=
  Reaches.step c .take

theorem reaches_complete (c : Course) : Reaches c { c with machine := c.machine.complete } :=
  Reaches.step c .complete

/-- The clock comes to any later instant. -/
theorem reaches_now (c : Course) {now : Nat} (hle : c.machine.now ≤ now) :
    Reaches c { c with machine := { c.machine with now } } := by
  have hstep := Reaches.step c (.elapse (now - c.machine.now))
  rwa [Course.step, Machine.elapse, Nat.add_sub_cancel' hle] at hstep

/-- The clock comes to the instant at which the work under way ends, and it ends. -/
theorem reaches_end (c : Course) (m : Machine) (t : Turn) (waiting : List Request)
    (hle : m.now ≤ t.ends) :
    Reaches { c with machine := { m with turn := some t, waiting } }
      { c with machine := { { m with now := t.ends }.finish t.request with
        turn := none, waiting } } := by
  have hnow := reaches_now { c with machine := { m with turn := some t, waiting } } hle
  have hcomplete := reaches_complete
    { c with machine := { m with now := t.ends, turn := some t, waiting } }
  have heq := Machine.complete_of_turn (m := { m with now := t.ends }) (t := t) rfl waiting
  simp only at heq hcomplete
  rw [heq] at hcomplete
  exact hnow.trans hcomplete

/-- Turns are given one by one, and work that ends in time ends in its turn. The induction is on
the queue, as in the machine, whose own queue is out of date meanwhile. -/
theorem reaches_serveUntil (target : Nat) (c : Course) (ws : List Request) (m : Machine) :
    Reaches { c with machine := { m with turn := none, waiting := ws } }
      { c with machine := m.serveUntil target ws } := by
  induction ws generalizing m with
  | nil => exact Reaches.refl _
  | cons r rest ih =>
      have htake := reaches_take { c with machine := { m with turn := none, waiting := r :: rest } }
      cases hrefusal : Machine.refusal? m.guarded r.transition with
      | some failure =>
          simp only [Machine.take_of_refused hrefusal] at htake
          simp only [Machine.serveUntil, hrefusal]
          exact htake.trans (ih _)
      | none =>
          simp only [Machine.take_of_runs hrefusal] at htake
          rw [Machine.serveUntil_of_runs hrefusal]
          by_cases hends : m.now + r.delay ≤ target
          · rw [if_pos hends]
            have hle : (m.begin r).now ≤ m.now + r.delay := by simp
            have hend := reaches_end c (m.begin r) ⟨r, m.now + r.delay⟩ rest hle
            exact (htake.trans hend).trans (ih _)
          · rw [if_neg hends]
            exact htake

theorem reaches_request {c : Course} (transition : Transition) (delay : Nat)
    (outcome : Except Failure Unit) :
    let r : Request := { task := c.fresh, transition, delay, outcome }
    Reaches c { c with
      machine := c.machine.request r, fresh := c.fresh + 1, asked := c.asked ++ [r] } := by
  intro r
  have hask := Reaches.step c (.ask transition delay outcome)
  unfold Machine.request
  split
  · exact hask
  · rename_i hfree
    refine hask.trans ?_
    have hserve := reaches_serveUntil c.machine.now
      { c with fresh := c.fresh + 1, asked := c.asked ++ [r] } (c.machine.waiting ++ [r]) c.machine
    have hstart : ({ c.machine with
        turn := none, waiting := c.machine.waiting ++ [r] } : Machine) = c.machine.ask r := by
      rw [Machine.ask, hfree]
    rwa [hstart] at hserve

theorem reaches_drop (c : Course) (task : Nat) :
    ∃ lapsed, Reaches c { c with machine := c.machine.drop task, lapsed } := by
  obtain ⟨lapsed, hcancel⟩ :
      ∃ lapsed, Reaches c { c with machine := c.machine.cancel task, lapsed } :=
    ⟨_, Reaches.step c (.cancel task)⟩
  refine ⟨lapsed, hcancel.trans ?_⟩
  unfold Machine.drop Machine.cancel
  by_cases hturn : c.machine.turn.any (·.request.task = task)
  · simp only [if_pos hturn]
    exact reaches_serveUntil c.machine.now { c with lapsed } c.machine.waiting
      (c.machine.note task .dropped)
  · simp only [if_neg hturn]
    exact Reaches.refl _

/-- Time passes: checks are answered, work ends and turns are given, and the clock comes to its
place. -/
theorem reaches_passUntil {c : Course} (hs : c.machine.Settled) (target : Nat) :
    Reaches c { c with machine := c.machine.passUntil target } := by
  have hanswer := Reaches.step c (.answer target)
  simp only [step] at hanswer
  refine hanswer.trans ?_
  unfold Machine.passUntil
  have hturn : (c.machine.answerChecks target).turn = c.machine.turn := rfl
  have hnow : (c.machine.answerChecks target).now = c.machine.now := rfl
  generalize c.machine.answerChecks target = m at hturn hnow
  simp only
  split
  · rename_i t ht
    by_cases hends : t.ends ≤ target
    · simp only [if_pos hends]
      have hle : m.now ≤ t.ends := hnow ▸ hs.ahead t (hturn.symm.trans ht)
      have hend := reaches_end c m t m.waiting hle
      rw [← ht] at hend
      have hserve := reaches_serveUntil target c m.waiting
        ({ m with now := t.ends }.finish t.request)
      exact (hend.trans hserve).trans (reaches_now _ (Nat.le_max_left _ _))
    · simp only [if_neg hends]
      exact reaches_now { c with machine := m } (Nat.le_max_left _ _)
  · exact reaches_now { c with machine := m } (Nat.le_max_left _ _)

theorem reaches_await {c : Course} (hs : c.machine.Settled) (task : Nat) :
    Reaches c { c with machine := c.machine.await task } ∧ (c.machine.await task).Settled := by
  have hgo : ∀ (rounds : Nat) (m : Machine), m.Settled →
      Reaches { c with machine := m } { c with machine := Machine.await.go task rounds m } ∧
        (Machine.await.go task rounds m).Settled := by
    intro rounds
    induction rounds with
    | zero => exact fun m hm => ⟨Reaches.refl _, hm⟩
    | succ rounds ih =>
        intro m hm
        unfold Machine.await.go
        split
        · obtain ⟨hreach, hsettled⟩ := ih _ (hm.passUntil _)
          exact ⟨(reaches_passUntil (c := { c with machine := m }) hm _).trans hreach, hsettled⟩
        · exact ⟨Reaches.refl _, hm⟩
  exact hgo _ _ hs

end Course

/-! ## Scripts -/

namespace Timeline

/-- The timeline after some steps. -/
def after (t : Timeline) (steps : List Step) : Timeline := steps.foldl (fun t s => (t.step s).2) t

/-- What a script sees last is the machine after its steps. -/
theorem run_snoc (t : Timeline) (steps : List Step) (s : Step) :
    t.run (steps ++ [s]) = t.run steps ++ [⟨((t.after steps).step s).1,
      (t.after (steps ++ [s])).machine.status, (t.after (steps ++ [s])).machine.now⟩] := by
  induction steps generalizing t with
  | nil => rfl
  | cons first rest ih =>
      show _ :: (t.step first).2.run (rest ++ [s]) = _
      rw [ih]
      rfl

/-- A course that has come to where a timeline is. -/
structure Follows (t : Timeline) (c : Course) : Prop where
  reached : Course.Reaches {} c
  machine : c.machine = t.machine
  fresh : c.fresh = t.fresh
  settled : c.machine.Settled

theorem Follows.launch {t : Timeline} {c : Course} (h : t.Follows c) (work : Work) (delay : Nat)
    (outcome : Except Failure Unit) (names : List (String × Nat)) :
    ∃ c', Follows ⟨launch t.machine t.fresh work delay outcome, names, t.fresh + 1⟩ c' := by
  rw [← h.machine, ← h.fresh]
  cases work with
  | transition transition =>
      exact ⟨_, h.reached.trans (Course.reaches_request transition delay outcome), rfl, rfl,
        h.settled.request _⟩
  | health limit =>
      exact ⟨_, h.reached.trans (.step c (.check limit delay outcome)), rfl, rfl,
        h.settled.check _ _ _ _⟩

theorem Follows.await {t : Timeline} {c : Course} (h : t.Follows c) (task : Nat) :
    ∃ c', Follows { t with machine := t.machine.await task } c' := by
  obtain ⟨hreach, hsettled⟩ := Course.reaches_await h.settled task
  exact ⟨_, h.reached.trans hreach, by rw [h.machine], h.fresh, hsettled⟩

theorem Follows.step {t : Timeline} {c : Course} (h : t.Follows c) (s : Step) :
    ∃ c', Follows (t.step s).2 c' := by
  cases s with
  | start work delay outcome name =>
      cases name with
      | some name => exact h.launch work delay outcome _
      | none =>
          obtain ⟨c', h'⟩ := h.launch work delay outcome t.names
          exact h'.await t.fresh
  | join name =>
      simp only [Timeline.step]
      split
      · exact h.await _
      · exact ⟨c, h⟩
  | abort name =>
      simp only [Timeline.step]
      split
      · rename_i task _
        obtain ⟨lapsed, hreach⟩ := c.reaches_drop task
        exact ⟨_, h.reached.trans hreach, by rw [h.machine], h.fresh, h.settled.drop task⟩
      · exact ⟨c, h⟩
  | sleep ms =>
      exact ⟨_, h.reached.trans (Course.reaches_passUntil h.settled _), by rw [h.machine]; rfl,
        h.fresh, h.settled.passUntil _⟩
  | look => exact ⟨c, h⟩
  | ensureConnected => exact ⟨c, h⟩

/-- **Scripts are courses.** Wherever a script brings a lifecycle, a course comes to the same
machine, and whoever waits there waits for work under way. -/
theorem exists_moves (steps : List Step) :
    ∃ moves, (Course.run {} moves).machine = (after {} steps).machine ∧
      (after {} steps).machine.Settled := by
  have hstart : Follows {} {} := ⟨.refl _, rfl, rfl, ⟨fun _ => rfl, nofun⟩⟩
  have hafter : ∀ (t : Timeline) c, t.Follows c → ∃ c', Follows (t.after steps) c' := by
    induction steps with
    | nil => exact fun t c h => ⟨c, h⟩
    | cons s rest ih =>
        intro t c h
        obtain ⟨c', h'⟩ := h.step s
        exact ih _ c' h'
  obtain ⟨c, hc⟩ := hafter {} {} hstart
  obtain ⟨moves, hmoves⟩ := hc.reached
  exact ⟨moves, hmoves ▸ hc.machine, hc.machine ▸ hc.settled⟩

end Timeline

end KeyLease.Lifecycle
