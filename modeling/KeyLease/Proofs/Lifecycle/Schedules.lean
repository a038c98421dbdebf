import KeyLease.Proofs.Lifecycle.Checks

set_option autoImplicit false

/-!
# A lifecycle that is acted on at given instants

A `Schedule` says what is done to a lifecycle from outside, and when: tasks start, ask for
transitions or check health, and are dropped; and anybody may look at the status. Time passes
between the acts, and after them to any instant (`Schedule.machineAt`).

`Schedule.bare_machineAt`: without its health checks and looks, the schedule brings the lifecycle to
the same machine at every instant, less what belongs to the checks.

`Schedule.verdict?_of_check`: each check says what was promised when it started, at the instant that
was promised.
-/

namespace KeyLease.Lifecycle

/-- What is done to a lifecycle from outside. -/
inductive Act
  /-- A task asks for a transition. -/
  | request (r : Request)
  /-- A task checks health; the sign of life would take `delay` milliseconds and give `outcome`. -/
  | check (task : Nat) (limit : Duration) (delay : Nat) (outcome : Except Failure Unit)
  | drop (task : Nat)
  | look
  | ensureConnected

namespace Act

/-- The number of the task that starts. -/
def started? : Act → Option Nat
  | request r => some r.task
  | check task _ _ _ => some task
  | drop _ | look | ensureConnected => none

/-- Health checks have numbers beside those of the transitions. -/
def Apart (beside : Nat → Bool) : Act → Prop
  | request r => beside r.task = false
  | check task _ _ _ => beside task = true
  | drop _ | look | ensureConnected => True

/-- Health checks, what is done to them, and reading the status. -/
def isBeside (beside : Nat → Bool) : Act → Bool
  | request _ => false
  | drop task => beside task
  | check _ _ _ _ | look | ensureConnected => true

end Act

/-- An act and its instant. -/
structure Timed where
  time : Nat
  act : Act

namespace Machine

/-- What an act does at once. -/
def act (m : Machine) : Act → Machine
  | .request r => m.request r
  | .check task limit delay outcome => m.check task limit delay outcome
  | .drop task => m.drop task
  | .look | .ensureConnected => m

/-- Acts at their instants, one after the other. -/
def play (m : Machine) (acts : List Timed) : Machine :=
  acts.foldl (fun m a => (m.passUntil a.time).act a.act) m

end Machine

/-- Acts in the order of their instants. Every task has a number of its own; those for which
`beside` holds check health. -/
structure Schedule where
  beside : Nat → Bool
  acts : List Timed
  sorted : acts.Pairwise fun a b => a.time ≤ b.time
  apart : ∀ a ∈ acts, a.act.Apart beside
  distinct : (acts.filterMap (·.act.started?)).Nodup

namespace Schedule

/-- The machine at an instant, when all has been done that was to be done by then. -/
def machineAt (s : Schedule) (instant : Nat) : Machine :=
  (Machine.play {} (s.acts.filter (·.time ≤ instant))).passUntil instant

/-- The same acts at the same instants, but for those beside the transitions. -/
def without (s : Schedule) : Schedule where
  beside := s.beside
  acts := s.acts.filter fun a => !a.act.isBeside s.beside
  sorted := s.sorted.filter _
  apart := fun a ha => s.apart a (List.mem_filter.mp ha).1
  distinct := s.distinct.sublist (List.filter_sublist.filterMap _)

end Schedule

namespace Machine

variable {beside : Nat → Bool} {m : Machine} {a : Act} {acts : List Timed} {n : Nat} {k : Check}

/-! ## What acts keep -/

theorem act_now (m : Machine) (a : Act) : (m.act a).now = m.now := by
  cases a with
  | request r => exact request_now m r
  | check task limit delay outcome => exact check_now m task limit delay outcome
  | drop task => exact drop_now m task
  | look => rfl
  | ensureConnected => rfl

/-- Nobody waits for a free turn, and nothing is overdue. -/
structure Orderly (m : Machine) : Prop where
  settled : m.Settled
  prompt : m.Prompt

namespace Orderly

theorem start : Orderly {} := ⟨⟨fun _ => rfl, nofun⟩, .start⟩

theorem passUntil (ho : m.Orderly) (instant : Nat) : (m.passUntil instant).Orderly :=
  ⟨ho.settled.passUntil instant, ho.prompt.passUntil ho.settled instant⟩

theorem act (ho : m.Orderly) (a : Act) : (m.act a).Orderly := by
  cases a with
  | request r => exact ⟨ho.settled.request r, ho.prompt.request r⟩
  | check task limit delay outcome =>
      exact ⟨ho.settled.check task limit delay outcome, ho.prompt.check task limit delay outcome⟩
  | drop task => exact ⟨ho.settled.drop task, ho.prompt.drop task⟩
  | look => exact ho
  | ensureConnected => exact ho

theorem play (ho : m.Orderly) (acts : List Timed) : (m.play acts).Orderly := by
  induction acts generalizing m with
  | nil => exact ho
  | cons a rest ih => exact ih ((ho.passUntil a.time).act a.act)

/-- The clock is nowhere but at the instants of the acts. -/
theorem play_now_le (ho : m.Orderly) {instant : Nat} (hnow : m.now ≤ instant)
    (hacts : ∀ a ∈ acts, a.time ≤ instant) : (m.play acts).now ≤ instant := by
  induction acts generalizing m with
  | nil => exact hnow
  | cons a rest ih =>
      refine ih ((ho.passUntil a.time).act a.act) ?_ fun b hb =>
        hacts b (List.mem_cons_of_mem _ hb)
      rw [act_now, ho.settled.passUntil_now]
      exact Nat.max_le.mpr ⟨hnow, hacts a List.mem_cons_self⟩

end Orderly

theorem Apart.act (ha : m.Apart beside) (hact : a.Apart beside) : (m.act a).Apart beside := by
  cases a with
  | request r => exact ha.request hact
  | check task limit delay outcome => exact ha.check hact limit delay outcome
  | drop task => exact ha.drop task
  | look => exact ha
  | ensureConnected => exact ha

theorem Calls.act {p : Nat → Prop} (hc : m.Calls p)
    (hact : ∀ task, a.started? = some task → p task) : (m.act a).Calls p := by
  cases a with
  | request r => exact hc.request (hact r.task rfl)
  | check task limit delay outcome => exact hc.check task limit delay outcome
  | drop task => exact hc.drop task
  | look => exact hc
  | ensureConnected => exact hc

/-! ## Without what is beside -/

/-- Acts beside the transitions do not show, and the others do what they always do. -/
theorem Apart.bare_act (ha : m.Apart beside) (hact : a.Apart beside) :
    (m.act a).bare beside =
      if a.isBeside beside then m.bare beside else (m.bare beside).act a := by
  cases a with
  | request r => exact ha.bare_request hact
  | check task limit delay outcome => exact ha.bare_check hact limit delay outcome
  | drop task =>
      cases htask : beside task with
      | true =>
          rw [if_pos (by simp [Act.isBeside, htask])]
          exact ha.bare_drop_of_beside htask
      | false =>
          rw [if_neg (by simp [Act.isBeside, htask])]
          exact ha.bare_drop htask
  | look => rfl
  | ensureConnected => rfl

theorem Settled.bare (hs : m.Settled) (beside : Nat → Bool) : (m.bare beside).Settled :=
  ⟨hs.idle, hs.ahead⟩

/-- Without checks, time that has passed already need not pass before the first act. -/
theorem Settled.play_passUntil (hs : m.Settled) (hchecks : m.checks = []) {first last : Nat}
    (hle : first ≤ last) (hacts : ∀ a ∈ acts, first ≤ a.time) :
    ((m.passUntil first).play acts).passUntil last = (m.play acts).passUntil last := by
  cases acts with
  | nil => exact hs.passUntil_passUntil hchecks hle
  | cons a rest =>
      have hpass := hs.passUntil_passUntil hchecks (hacts a List.mem_cons_self)
      simp only [play, List.foldl_cons, hpass]

/-- The induction is on the acts. One that stands beside leaves nothing behind but that time has
passed until its instant, which the next act would have let pass as well. -/
theorem Apart.bare_play (ha : m.Apart beside) (ho : m.Orderly) (instant : Nat)
    (hsorted : acts.Pairwise fun a b => a.time ≤ b.time) (hacts : ∀ a ∈ acts, a.act.Apart beside)
    (hinstant : ∀ a ∈ acts, a.time ≤ instant) :
    ((m.play acts).passUntil instant).bare beside =
      ((m.bare beside).play (acts.filter fun a => !a.act.isBeside beside)).passUntil instant := by
  induction acts generalizing m with
  | nil => exact ha.bare_passUntil instant
  | cons a rest ih =>
      obtain ⟨hfirst, hrest⟩ := List.pairwise_cons.mp hsorted
      have hact := hacts a List.mem_cons_self
      have hpassed := ha.passUntil a.time
      have hbare := hpassed.bare_act hact
      have hlater := ih (hpassed.act hact) ((ho.passUntil a.time).act a.act) hrest
        (fun b hb => hacts b (List.mem_cons_of_mem _ hb))
        fun b hb => hinstant b (List.mem_cons_of_mem _ hb)
      refine hlater.trans ?_
      cases hbeside : a.act.isBeside beside with
      | true =>
          rw [hbare, if_pos hbeside, ha.bare_passUntil, List.filter_cons_of_neg (by simp [hbeside])]
          -- Time would come to this instant anyway, on its way to the next act or to the end.
          exact (ho.settled.bare beside).play_passUntil rfl (hinstant a List.mem_cons_self)
            fun b hb => hfirst b (List.mem_filter.mp hb).1
      | false =>
          rw [hbare, if_neg (by simp [hbeside]), ha.bare_passUntil,
            List.filter_cons_of_pos (by simp [hbeside])]
          rfl

/-! ## One check -/

/-- An act on other tasks leaves a check alone, or lets it be answered if it is due. -/
theorem Calls.trace_act (hc : m.Calls (· ≠ n)) (hstart : a.started? ≠ some n)
    (hdrop : a = .drop n → (m.trace n).1 = []) :
    (m.act a).trace n = m.trace n ∨ (m.act a).trace n = (m.answerChecks m.now).trace n := by
  cases a with
  | request r => exact Or.inl (hc.trace_request fun heq => hstart (congrArg some heq))
  | check task limit delay outcome =>
      exact trace_check (fun heq => hstart (congrArg some heq)) limit delay outcome
  | drop task =>
      by_cases htask : task = n
      · subst htask
        have hsame : m.drop task = m := by
          rw [hc.drop_of_not (fun hne => hne rfl), dropCheck_of_trace (hdrop rfl)]
        exact Or.inl (congrArg (trace · task) hsame)
      · exact Or.inl (hc.trace_drop htask)
  | look => exact Or.inl rfl
  | ensureConnected => exact Or.inl rfl

/-- A task has no check that waits, and the log tells this of it. So it stays if the task does not
start. -/
structure Resting (n : Nat) (entries : List Entry) (m : Machine) : Prop where
  calls : m.Calls (· ≠ n)
  trace : m.trace n = ([], entries)

namespace Resting

variable {entries : List Entry}

theorem start (n : Nat) : Resting n [] {} := ⟨.start _, rfl⟩

theorem answerChecks (hr : Resting n entries m) (instant : Nat) :
    (m.answerChecks instant).trace n = ([], entries) := by
  rw [trace_answerChecks, hr.trace]
  simp

theorem passUntil (hr : Resting n entries m) (instant : Nat) :
    Resting n entries (m.passUntil instant) :=
  ⟨hr.calls.passUntil instant, (hr.calls.trace_passUntil instant).trans (hr.answerChecks instant)⟩

theorem act (hr : Resting n entries m) (hstart : a.started? ≠ some n) :
    Resting n entries (m.act a) := by
  refine ⟨hr.calls.act fun task htask heq => hstart (heq ▸ htask), ?_⟩
  rcases hr.calls.trace_act hstart (fun _ => congrArg Prod.fst hr.trace) with hsame | hanswered
  · exact hsame.trans hr.trace
  · exact hanswered.trans (hr.answerChecks _)

theorem play (hr : Resting n entries m) (hacts : ∀ a ∈ acts, a.act.started? ≠ some n) :
    Resting n entries (m.play acts) := by
  induction acts generalizing m with
  | nil => exact hr
  | cons a rest ih =>
      exact ih ((hr.passUntil a.time).act (hacts a List.mem_cons_self)) fun b hb =>
        hacts b (List.mem_cons_of_mem _ hb)

/-- Unless the lifecycle is connected a check is answered at once. -/
theorem check_of_not_connected (hr : Resting n [] m) (hstatus : m.status ≠ .connected)
    (limit : Duration) (delay : Nat) (outcome : Except Failure Unit) :
    Resting n [(m.promise n limit delay outcome).entry] (m.check n limit delay outcome) := by
  refine ⟨hr.calls.check n limit delay outcome, ?_⟩
  have hchecks : m.checks.filter (·.task = n) = [] := congrArg Prod.fst hr.trace
  have hlog : m.log.filter (·.task = n) = [] := congrArg Prod.snd hr.trace
  cases hs : m.status with
  | connected => exact absurd hs hstatus
  | uninitialized => simp [Machine.trace, check, promise, hs, hchecks, hlog, Check.entry]
  | disconnected => simp [Machine.trace, check, promise, hs, hchecks, hlog, Check.entry]

end Resting

/-- A check is in one of its stages, and no transition has its number. -/
structure Tended (k : Check) (m : Machine) : Prop where
  stage : Stage k m
  calls : m.Calls (· ≠ k.task)
  orderly : m.Orderly

namespace Tended

/-- A check has been told what it was promised once that is due, and waits until then. -/
theorem told_or_waits (ht : Tended k m) :
    (m.trace k.task = ([], [k.entry]) ∧ k.ends ≤ m.now) ∨
      (m.trace k.task = ([k], []) ∧ m.now < k.ends) := by
  cases ht.stage with
  | told htrace hnow => exact Or.inl ⟨htrace, hnow⟩
  | waits htrace _ =>
      exact Or.inr ⟨htrace, ht.orderly.prompt.checks k (mem_checks_of_trace htrace)⟩

theorem passUntil (ht : Tended k m) (instant : Nat) : Tended k (m.passUntil instant) :=
  ⟨ht.stage.answered instant (ht.calls.trace_passUntil instant)
      (ht.orderly.settled.passUntil_now instant),
    ht.calls.passUntil instant, ht.orderly.passUntil instant⟩

theorem act (ht : Tended k m) (hstart : a.started? ≠ some k.task)
    (hdrop : a = .drop k.task → k.ends ≤ m.now) : Tended k (m.act a) := by
  refine ⟨?_, ht.calls.act fun task htask heq => hstart (heq ▸ htask), ht.orderly.act a⟩
  -- A check that is dropped is due, so it has been answered and there is nothing left to drop.
  have hgone : a = .drop k.task → (m.trace k.task).1 = [] := by
    intro heq
    rcases ht.told_or_waits with ⟨htrace, -⟩ | ⟨-, hlt⟩
    · rw [htrace]
    · exact absurd (hdrop heq) (Nat.not_le.mpr hlt)
  rcases ht.calls.trace_act hstart hgone with hsame | hanswered
  · exact ht.stage.same hsame (m.act_now a)
  · exact ht.stage.answered m.now hanswered ((m.act_now a).trans (Nat.max_self _).symm)

/-- A check that starts in an orderly machine that knows nothing of it. -/
theorem start (hr : Resting n [] m) (ho : m.Orderly) (limit : Duration) (delay : Nat)
    (outcome : Except Failure Unit) :
    Tended (m.promise n limit delay outcome) (m.check n limit delay outcome) := by
  refine ⟨.start hr.trace limit delay outcome, ?_,
    ho.act (.check n limit delay outcome)⟩
  rw [promise_task]
  exact hr.calls.check n limit delay outcome

/-- The run lemma: a check is dropped only when it is over, if ever. -/
theorem play (ht : Tended k m) (hstart : ∀ a ∈ acts, a.act.started? ≠ some k.task)
    (hdrop : ∀ a ∈ acts, a.act = .drop k.task → k.ends ≤ a.time) : Tended k (m.play acts) := by
  induction acts generalizing m with
  | nil => exact ht
  | cons a rest ih =>
      have hpassed := ht.passUntil a.time
      have hnow : a.time ≤ (m.passUntil a.time).now := by
        rw [ht.orderly.settled.passUntil_now]
        exact Nat.le_max_right _ _
      refine ih (hpassed.act (hstart a List.mem_cons_self) fun heq => ?_)
        (fun b hb => hstart b (List.mem_cons_of_mem _ hb))
        fun b hb => hdrop b (List.mem_cons_of_mem _ hb)
      exact Nat.le_trans (hdrop a List.mem_cons_self heq) hnow

end Tended

end Machine

/-- Where every task has a number of its own, the number of one that starts is not used before, nor
after. -/
theorem started_once {α : Type} {started? : α → Option Nat} {before after : List α} {a : α}
    {n : Nat} (hdistinct : ((before ++ a :: after).filterMap started?).Nodup) (ha : started? a = some n) :
    (∀ b ∈ before, started? b ≠ some n) ∧ ∀ b ∈ after, started? b ≠ some n := by
  rw [List.filterMap_append, List.filterMap_cons_some ha, List.nodup_append] at hdistinct
  obtain ⟨-, hafter, hbetween⟩ := hdistinct
  refine ⟨fun b hb heq => ?_, fun b hb heq => ?_⟩
  · exact hbetween n (List.mem_filterMap.mpr ⟨b, hb, heq⟩) n List.mem_cons_self rfl
  · exact (List.nodup_cons.mp hafter).1 (List.mem_filterMap.mpr ⟨b, hb, heq⟩)

namespace Schedule

variable (s : Schedule)

theorem mem_until {instant : Nat} {a : Timed} (ha : a ∈ s.acts.filter (·.time ≤ instant)) :
    a ∈ s.acts ∧ a.time ≤ instant := by
  obtain ⟨hmem, hle⟩ := List.mem_filter.mp ha
  exact ⟨hmem, of_decide_eq_true hle⟩

/-- **Two runs.** At every instant the lifecycle is where it would be without the health checks,
whatever is done to them, and without the looks, but for what belongs to the checks. -/
theorem bare_machineAt (instant : Nat) :
    (s.machineAt instant).bare s.beside = s.without.machineAt instant := by
  have hplay := (Machine.Apart.start s.beside).bare_play .start instant
    (s.sorted.filter (·.time ≤ instant)) (fun a ha => s.apart a (s.mem_until ha).1)
    fun a ha => (s.mem_until ha).2
  rw [List.filter_comm] at hplay
  exact hplay

theorem machineAt_now (instant : Nat) : (s.machineAt instant).now = instant := by
  have hplayed : (Machine.play {} (s.acts.filter (·.time ≤ instant))).now ≤ instant :=
    Machine.Orderly.start.play_now_le (Nat.zero_le _) fun a ha => (s.mem_until ha).2
  rw [machineAt, (Machine.Orderly.start.play _).settled.passUntil_now]
  exact Nat.max_eq_right hplayed

section Check

variable {s} {before after : List Timed} {start n delay : Nat} {limit : Duration}
  {outcome : Except Failure Unit}
  (hacts : s.acts = before ++ ⟨start, .check n limit delay outcome⟩ :: after)
include hacts

theorem time_le_start : ∀ a ∈ before, a.time ≤ start := by
  have hsorted := s.sorted
  rw [hacts] at hsorted
  exact fun a ha => (List.pairwise_append.mp hsorted).2.2 a ha _ List.mem_cons_self

/-- From the start of a check on, the schedule goes on from the machine that it has left. -/
theorem machineAt_of_start_le {instant : Nat} (hstart : start ≤ instant) :
    s.machineAt instant =
      ((((Machine.play {} before).passUntil start).check n limit delay outcome).play
        (after.filter (·.time ≤ instant))).passUntil instant := by
  have hbefore : before.filter (·.time ≤ instant) = before := by
    refine List.filter_eq_self.mpr fun a ha => decide_eq_true ?_
    exact Nat.le_trans (time_le_start hacts a ha) hstart
  have hsplit : s.acts.filter (·.time ≤ instant) = before ++
      ⟨start, .check n limit delay outcome⟩ :: after.filter (·.time ≤ instant) := by
    simp [hacts, hbefore, hstart]
  rw [machineAt, hsplit, Machine.play, List.foldl_append]
  rfl

/-- **What a check is told.** When it starts it is decided what it will say and when. Unless it is
dropped before, it is without an answer until that instant, and has that answer from then on. -/
theorem verdict?_of_check {k : Check}
    (hk : k = ((Machine.play {} before).passUntil start).promise n limit delay outcome)
    (hdrop : ∀ a ∈ after, a.act = .drop n → k.ends ≤ a.time) {instant : Nat}
    (hstart : start ≤ instant) :
    (s.machineAt instant).verdict? n =
      if k.ends ≤ instant then some (.ended k.result) else none := by
  have hdistinct := s.distinct
  rw [hacts] at hdistinct
  -- The number is new at the start, and nobody else gets it afterwards.
  obtain ⟨hbefore, hafter⟩ := started_once hdistinct rfl
  have hresting := ((Machine.Resting.start n).play hbefore).passUntil start
  have horderly := (Machine.Orderly.start.play before).passUntil start
  have hstarted := Machine.Tended.start hresting horderly limit delay outcome
  have htask : k.task = n := hk ▸ Machine.promise_task _ n limit delay outcome
  rw [← hk] at hstarted
  have hrest : ∀ a ∈ after.filter (·.time ≤ instant), a ∈ after := fun a ha =>
    (List.mem_filter.mp ha).1
  have htended := (hstarted.play (fun a ha => htask.symm ▸ hafter a (hrest a ha))
    fun a ha => htask.symm ▸ hdrop a (hrest a ha)).passUntil instant
  rw [← machineAt_of_start_le hacts hstart] at htended
  -- The clock stands at the instant, so it tells whether the check is due.
  have hstage := htended.told_or_waits
  rw [machineAt_now, htask] at hstage
  rcases hstage with ⟨htold, hends⟩ | ⟨hwaits, hlt⟩
  · rw [if_pos hends, Machine.verdict?_of_told htold]
  · rw [if_neg (Nat.not_le.mpr hlt), Machine.verdict?_of_waits hwaits]

end Check

end Schedule

end KeyLease.Lifecycle
