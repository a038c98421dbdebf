import KeyLease.Proofs.Lifecycle.Interleavings

set_option autoImplicit false

/-!
# Health checks stand beside the transitions

`health_stands_aside`: whoever checks health or looks at the status, however often and at whatever
moments, leaves every transition as it is, its result and its instants, and the status at every
instant. And a check is answered as the status at its start and its limit have it, at the instant
that follows from them, whatever transitions are under way meanwhile.

`Schedule.Undisturbed` and `Schedule.AnswersChecks` say this of acts at given instants, and so of
scripts; `Interleaving.Undisturbed` and `Interleaving.AnswersChecks` say it of acts between any two
steps.
-/

namespace KeyLease.Lifecycle

/-- What a check must say that starts at an instant, in a status, and when. Only if the lifecycle is
connected does it wait for its sign of life, and no longer than its limit. -/
inductive Due (start : Nat) (limit : Duration) (delay : Nat) (outcome : Except Failure Unit) :
    Status → Nat → Except Failure Unit → Prop
  | disconnected : Due start limit delay outcome .disconnected start (.ok ())
  | uninitialized : Due start limit delay outcome .uninitialized start (.error .notConnected)
  | alive (hle : delay ≤ limit.timerMillis) :
      Due start limit delay outcome .connected (start + delay) outcome
  | late (hlt : limit.timerMillis < delay) :
      Due start limit delay outcome .connected (start + limit.timerMillis)
        (.error (.backendUnavailable (.healthTimedOut limit)))

theorem Machine.due_promise (m : Machine) (n : Nat) (limit : Duration) (delay : Nat)
    (outcome : Except Failure Unit) :
    Due m.now limit delay outcome m.status (m.promise n limit delay outcome).ends
      (m.promise n limit delay outcome).result := by
  cases hstatus : m.status with
  | disconnected =>
      simp only [promise, hstatus]
      exact .disconnected
  | uninitialized =>
      simp only [promise, hstatus]
      exact .uninitialized
  | connected =>
      simp only [promise, hstatus, plan]
      split
      · exact .alive ‹_›
      · exact .late (Nat.lt_of_not_le ‹_›)

/-- A timer waits for the least number of milliseconds that is no shorter. -/
theorem timerMillis_le_iff (d : Duration) (ms : Nat) :
    d.timerMillis ≤ ms ↔ d ≤ Duration.ofMillis ms := by
  show (d.nanos + 999999) / 1000000 ≤ ms ↔ d.nanos ≤ ms * 1000000
  omega

/-- A check that starts in a lifecycle that is not connected asks for no sign of life. -/
theorem Machine.check_of_not_connected {m : Machine} (hstatus : m.status ≠ .connected) (n : Nat)
    (limit limit' : Duration) (delay delay' : Nat) (outcome outcome' : Except Failure Unit) :
    m.check n limit delay outcome = m.check n limit' delay' outcome' := by
  unfold check
  cases hs : m.status with
  | connected => exact absurd hs hstatus
  | uninitialized => rfl
  | disconnected => rfl

/-! ## Schedules -/

namespace Schedule

/-- At every instant transitions and the status are what they would be without health checks. -/
structure Undisturbed (s : Schedule) : Prop where
  machine : ∀ instant, (s.machineAt instant).bare s.beside = s.without.machineAt instant
  status : ∀ instant, (s.machineAt instant).status = (s.without.machineAt instant).status
  verdict : ∀ instant task, s.beside task = false →
    (s.machineAt instant).verdict? task = (s.without.machineAt instant).verdict? task

theorem undisturbed (s : Schedule) : s.Undisturbed := by
  refine ⟨s.bare_machineAt, fun instant => ?_, fun instant task htask => ?_⟩
  · rw [← s.bare_machineAt, Machine.bare_status]
  · rw [← s.bare_machineAt, Machine.verdict?_bare htask]

/-- Every check is answered with what is due, at the instant at which it is due, unless it is
dropped before. -/
def AnswersChecks (s : Schedule) : Prop :=
  ∀ before after start n limit delay outcome,
    s.acts = before ++ ⟨start, .check n limit delay outcome⟩ :: after →
      ∃ ends result,
        Due start limit delay outcome ((Machine.play {} before).passUntil start).status ends
          result ∧
        ((∀ a ∈ after, a.act = .drop n → ends ≤ a.time) → ∀ instant, start ≤ instant →
          (s.machineAt instant).verdict? n =
            if ends ≤ instant then some (.ended result) else none)

theorem answersChecks (s : Schedule) : s.AnswersChecks := by
  intro before after start n limit delay outcome hacts
  have hnow : ((Machine.play {} before).passUntil start).now = start := by
    rw [(Machine.Orderly.start.play before).settled.passUntil_now]
    exact Nat.max_eq_right
      (Machine.Orderly.start.play_now_le (Nat.zero_le _) (time_le_start hacts))
  have hdue := ((Machine.play {} before).passUntil start).due_promise n limit delay outcome
  rw [hnow] at hdue
  exact ⟨_, _, hdue, fun hdrop instant => verdict?_of_check hacts rfl hdrop⟩

end Schedule

/-! ## Interleavings -/

namespace Interleaving

/-- At every moment transitions and the status are what they would be without health checks. -/
def Undisturbed (c : Interleaving) : Prop :=
  ∀ first rest, c.happenings = first ++ rest →
    let m := Machine.follow {} first
    let alone := Machine.follow {} (first.filter fun h => !h.isBeside c.beside)
    m.bare c.beside = alone ∧ m.status = alone.status ∧
      ∀ task, c.beside task = false → m.verdict? task = alone.verdict? task

theorem undisturbed (c : Interleaving) : c.Undisturbed := by
  intro first rest hsplit m alone
  have hbare : m.bare c.beside = alone := c.bare_follow hsplit
  refine ⟨hbare, ?_, fun task htask => ?_⟩
  · rw [← hbare, Machine.bare_status]
  · rw [← hbare, Machine.verdict?_bare htask]

/-- At every moment after its start, a check has been answered with what was due, at the instant at
which it was due. Only if the lifecycle was connected it may wait, while that instant has not passed,
or have been dropped. -/
def AnswersChecks (c : Interleaving) : Prop :=
  ∀ before middle rest n limit delay outcome,
    c.happenings = before ++ .act (.check n limit delay outcome) :: (middle ++ rest) →
      let started := Machine.follow {} before
      let m := (started.happen (.act (.check n limit delay outcome))).follow middle
      ∃ ends result, Due started.now limit delay outcome started.status ends result ∧
        (m.verdict? n = some (.ended result) ∧ ends ≤ m.now ∧ ⟨ends, n, .ended result⟩ ∈ m.log ∨
          started.status = .connected ∧
            (m.verdict? n = none ∧ m.now ≤ ends ∨
              m.verdict? n = some .dropped ∧ .act (.drop n) ∈ middle))

theorem answersChecks (c : Interleaving) : c.AnswersChecks := by
  intro before middle rest n limit delay outcome hsplit started m
  obtain ⟨k, hk⟩ : ∃ k, k = started.promise n limit delay outcome := ⟨_, rfl⟩
  have htask : k.task = n := hk ▸ Machine.promise_task started n limit delay outcome
  have hanswered : m.trace n = ([], [k.entry]) → m.verdict? n = some (.ended k.result) ∧
      ⟨k.ends, n, .ended k.result⟩ ∈ m.log := by
    intro htrace
    have hmem : k.entry ∈ m.log.filter (·.task = n) := by
      rw [show m.log.filter (·.task = n) = [k.entry] from congrArg Prod.snd htrace]
      exact List.mem_singleton.mpr rfl
    exact ⟨Machine.verdict?_of_told htrace, htask ▸ (List.mem_filter.mp hmem).1⟩
  refine ⟨k.ends, k.result, hk ▸ started.due_promise n limit delay outcome, ?_⟩
  by_cases hstatus : started.status = .connected
  · rcases trace_of_check hsplit hk rfl with ⟨hwaits, hnow⟩ | ⟨htold, hnow⟩ | ⟨time, hgone, hdrop⟩
    · exact Or.inr ⟨hstatus, Or.inl ⟨Machine.verdict?_of_waits hwaits, hnow⟩⟩
    · exact Or.inl ⟨(hanswered htold).1, hnow, (hanswered htold).2⟩
    · refine Or.inr ⟨hstatus, Or.inr ⟨?_, hdrop⟩⟩
      exact (m.verdict?_eq_trace n).trans (congrArg (fun t => t.2.findSome? Entry.verdict?) hgone)
  · obtain ⟨htold, hnow⟩ := trace_of_check_at_once hsplit hk rfl hstatus
    exact Or.inl ⟨(hanswered htold).1, hnow, (hanswered htold).2⟩

end Interleaving

/-! ## All together -/

/-- **Health checks stand aside.** In every schedule and in every interleaving, whatever is done to
health checks, and whoever looks at the status, transitions have the same results at the same
instants and the status is the same at every instant as without them; and each check is answered
with what was due when it started, at the instant at which it was due, whatever transitions are
under way. Who looks at the status goes on at once, and a check of a lifecycle that is not connected
asks for no sign of life. Delays and limits count in milliseconds of a timer that rounds up. -/
theorem health_stands_aside :
    (∀ s : Schedule, s.Undisturbed ∧ s.AnswersChecks) ∧
      (∀ c : Interleaving, c.Undisturbed ∧ c.AnswersChecks) ∧
      (∀ t : Timeline, (t.step .look).2 = t ∧
        t.step .ensureConnected = (.result t.machine.status.ensureConnected, t)) ∧
      (∀ m : Machine, m.status ≠ .connected → ∀ n limit limit' delay delay' outcome outcome',
        m.check n limit delay outcome = m.check n limit' delay' outcome') ∧
      ∀ d ms, d.timerMillis ≤ ms ↔ d ≤ Duration.ofMillis ms := by
  refine ⟨fun s => ⟨s.undisturbed, s.answersChecks⟩, fun c => ⟨c.undisturbed, c.answersChecks⟩,
    fun t => ⟨rfl, rfl⟩, ?_, timerMillis_le_iff⟩
  intro m hstatus n limit limit' delay delay' outcome outcome'
  exact Machine.check_of_not_connected hstatus n limit limit' delay delay' outcome outcome'

/-- A lifecycle is connected at once and disconnected from 3 to 13. One check starts before, and its
sign of life comes at its limit of five milliseconds; another starts while the turn is held. -/
def closing : Schedule where
  beside task := task % 2 = 1
  acts := [
    ⟨0, .request ⟨0, .connect, 0, .ok ()⟩⟩,
    ⟨1, .check 1 ⟨5000000⟩ 5 (.ok ())⟩,
    ⟨3, .request ⟨2, .disconnect, 10, .ok ()⟩⟩,
    ⟨4, .check 3 ⟨5000000⟩ 1 (.error .notConnected)⟩]
  sorted := by decide
  apart := by simp [Act.Apart]
  distinct := by decide

theorem health_stands_aside_while_closing :
    (closing.machineAt 5).verdict? 1 = none ∧
      (closing.machineAt 6).verdict? 1 = some (.ended (.ok ())) ∧
      (closing.machineAt 4).turn.isSome ∧
      (closing.machineAt 4).verdict? 3 = some (.ended (.ok ())) ∧
      (closing.machineAt 6).status = (closing.without.machineAt 6).status := by
  obtain ⟨hundisturbed, hanswers⟩ := health_stands_aside.1 closing
  obtain ⟨ends, result, hdue, htold⟩ :=
    hanswers (closing.acts.take 1) _ 1 1 ⟨5000000⟩ 5 (.ok ()) rfl
  obtain ⟨ends', result', hdue', htold'⟩ := hanswers (closing.acts.take 3) [] 4 3 ⟨5000000⟩ 1
    (.error .notConnected) rfl
  cases hdue with
  | late hlt => exact absurd hlt (by decide)
  | alive hle =>
      cases hdue' with
      | disconnected =>
          refine ⟨htold ?_ 5 (by decide), htold ?_ 6 (by decide), rfl,
            htold' nofun 4 (by decide), hundisturbed.status 6⟩
          · simp
          · simp

end KeyLease.Lifecycle
