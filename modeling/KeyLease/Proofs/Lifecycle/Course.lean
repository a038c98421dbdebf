import KeyLease.Lifecycle.Timeline

set_option autoImplicit false

/-!
# The course of a lifecycle, one step at a time

`Machine` lets everything happen that is due before it looks up. Here the same happens one step at
a time: a call is made and queues, the call in front gets its turn and is refused or begins its
work, the work under way ends, a call is dropped. Between any two steps any other may come, so a
`Course` also goes through the moments that a machine passes over.

Each call has a number of its own. A course remembers the calls in the order in which they were made
and those that were dropped while they still waited.

`Effect` says once what a step can do; the invariants are derived from it.
-/

namespace KeyLease.Lifecycle

namespace Machine

/-- A call takes its place behind all that wait. -/
def ask (m : Machine) (r : Request) : Machine := { m with waiting := m.waiting ++ [r] }

/-- The call in front gets its turn, if nobody has it: it is refused, or it begins its work. -/
def take (m : Machine) : Machine :=
  match m.turn, m.waiting with
  | none, r :: rest =>
      match refusal? m.guarded r.transition with
      | some failure => { m.note r.task (.ended (.error failure)) with waiting := rest }
      | none => { m.begin r with turn := some ⟨r, m.now + r.delay⟩, waiting := rest }
  | _, _ => m

/-- The work under way ends. -/
def complete (m : Machine) : Machine :=
  match m.turn with
  | some t => { m.finish t.request with turn := none }
  | none => m

/-- A task is dropped, and nobody gets a turn by that yet. -/
def cancel (m : Machine) (task : Nat) : Machine :=
  if m.turn.any (·.request.task = task) then { m.note task .dropped with turn := none }
  else if m.waiting.any (·.task = task) then
    { m with waiting := m.waiting.filter (·.task ≠ task) }.note task .dropped
  else m.dropCheck task

/-- The clock moves. -/
def elapse (m : Machine) (ms : Nat) : Machine := { m with now := m.now + ms }

section Fields

variable (m : Machine) (r : Request) (task : Nat) (event : Event)

@[simp] theorem note_status : (m.note task event).status = m.status := rfl

@[simp] theorem note_guarded : (m.note task event).guarded = m.guarded := rfl

@[simp] theorem note_turn : (m.note task event).turn = m.turn := rfl

@[simp] theorem note_waiting : (m.note task event).waiting = m.waiting := rfl

@[simp] theorem note_checks : (m.note task event).checks = m.checks := rfl

@[simp] theorem note_log : (m.note task event).log = m.log ++ [⟨m.now, task, event⟩] := rfl

@[simp] theorem begin_now : (m.begin r).now = m.now := by unfold begin; split <;> rfl

@[simp] theorem begin_checks : (m.begin r).checks = m.checks := by unfold begin; split <;> rfl

@[simp] theorem begin_log : (m.begin r).log = m.log ++ [⟨m.now, r.task, .began⟩] := by
  unfold begin
  split <;> rfl

@[simp] theorem finish_now : (m.finish r).now = m.now := by unfold finish; split <;> rfl

@[simp] theorem finish_waiting : (m.finish r).waiting = m.waiting := by
  unfold finish
  split <;> rfl

@[simp] theorem finish_checks : (m.finish r).checks = m.checks := by unfold finish; split <;> rfl

@[simp] theorem finish_log :
    (m.finish r).log = m.log ++ [⟨m.now, r.task, .ended r.outcome⟩] := by
  unfold finish
  split <;> rfl

end Fields

/-- Answering checks writes only what belongs to checks. -/
theorem answerChecks_log (m : Machine) (target : Nat) :
    ∃ extra, (m.answerChecks target).log = m.log ++ extra ∧
      ∀ e ∈ extra, e.event ≠ .began ∧ ∃ k ∈ m.checks, k.task = e.task := by
  refine ⟨_, rfl, fun e he => ?_⟩
  obtain ⟨k, hk, rfl⟩ := List.mem_map.mp he
  exact ⟨nofun, k, (List.mem_filter.mp hk).1, rfl⟩

theorem plan_task (m : Machine) (task : Nat) (limit : Duration) (delay : Nat)
    (outcome : Except Failure Unit) : (m.plan task limit delay outcome).task = task := by
  unfold plan
  split <;> rfl

/-- Only the check that is made is new. -/
theorem mem_checks_check {m : Machine} {task : Nat} {limit : Duration} {delay : Nat}
    {outcome : Except Failure Unit} {k : Check}
    (hk : k ∈ (m.check task limit delay outcome).checks) : k ∈ m.checks ∨ k.task = task := by
  unfold check at hk
  split at hk
  · rcases List.mem_append.mp (List.mem_filter.mp hk).1 with hk | hk
    · exact Or.inl hk
    · exact Or.inr (by rw [List.mem_singleton.mp hk, plan_task])
  · exact Or.inl hk

/-- Turns are no business of the checks. -/
theorem take_checks (m : Machine) : m.take.checks = m.checks := by
  unfold take
  split
  · split
    · rfl
    · exact begin_checks _ _
  · rfl

theorem complete_checks (m : Machine) : m.complete.checks = m.checks := by
  unfold complete
  split
  · exact finish_checks _ _
  · rfl

theorem mem_checks_cancel {m : Machine} {task : Nat} {k : Check}
    (hk : k ∈ (m.cancel task).checks) : k ∈ m.checks := by
  unfold cancel dropCheck at hk
  repeat' split at hk
  · exact hk
  · exact hk
  · exact (List.mem_filter.mp hk).1
  · exact hk

/-- All tasks of a machine have numbers below a bound. -/
structure Below (m : Machine) (bound : Nat) : Prop where
  turn : ∀ t, m.turn = some t → t.request.task < bound
  waiting : ∀ r ∈ m.waiting, r.task < bound
  checks : ∀ k ∈ m.checks, k.task < bound
  log : ∀ e ∈ m.log, e.task < bound

namespace Below

variable {m : Machine} {bound : Nat}

theorem start (bound : Nat) : Below {} bound := by
  constructor
  · intro t ht
    cases ht
  · intro r hr
    cases hr
  · intro k hk
    cases hk
  · intro e he
    cases he

theorem mono (hb : m.Below bound) {bound' : Nat} (hle : bound ≤ bound') : m.Below bound' :=
  ⟨fun t ht => Nat.lt_of_lt_of_le (hb.turn t ht) hle,
    fun r hr => Nat.lt_of_lt_of_le (hb.waiting r hr) hle,
    fun k hk => Nat.lt_of_lt_of_le (hb.checks k hk) hle,
    fun e he => Nat.lt_of_lt_of_le (hb.log e he) hle⟩

theorem note (hb : m.Below bound) {task : Nat} (htask : task < bound) (event : Event) :
    (m.note task event).Below bound := by
  refine ⟨hb.turn, hb.waiting, hb.checks, fun e he => ?_⟩
  rcases List.mem_append.mp he with he | he
  · exact hb.log e he
  · rwa [List.mem_singleton.mp he]

theorem ask (hb : m.Below bound) {r : Request} (htask : r.task < bound) :
    (m.ask r).Below bound := by
  refine ⟨hb.turn, fun r' hr => ?_, hb.checks, hb.log⟩
  rcases List.mem_append.mp hr with hr | hr
  · exact hb.waiting r' hr
  · rwa [List.mem_singleton.mp hr]

theorem take (hb : m.Below bound) : m.take.Below bound := by
  unfold Machine.take
  split
  · rename_i r rest _ hfront
    have hr : r.task < bound := hb.waiting r (by simp [hfront])
    have hrest : ∀ r' ∈ rest, r'.task < bound := fun r' hr' =>
      hb.waiting r' (by simp [hfront, hr'])
    split
    · rename_i failure _
      have hnote := hb.note hr (.ended (.error failure))
      exact ⟨hnote.turn, hrest, hnote.checks, hnote.log⟩
    · have hnote := hb.note hr .began
      refine ⟨fun t ht => ?_, hrest, by simpa using hnote.checks, by simpa using hnote.log⟩
      cases ht
      exact hr
  · exact hb

theorem complete (hb : m.Below bound) : m.complete.Below bound := by
  unfold Machine.complete
  split
  · rename_i t hturn
    have hnote := hb.note (hb.turn t hturn) (.ended t.request.outcome)
    exact ⟨nofun, by simpa using hnote.waiting, by simpa using hnote.checks,
      by simpa using hnote.log⟩
  · exact hb

theorem cancel (hb : m.Below bound) (task : Nat) : (m.cancel task).Below bound := by
  unfold Machine.cancel
  split
  · rename_i hturn
    obtain ⟨t, ht, htask⟩ := (Option.any_eq_true _ _).mp hturn
    have hnote := hb.note (of_decide_eq_true htask ▸ hb.turn t ht) .dropped
    exact ⟨nofun, hnote.waiting, hnote.checks, hnote.log⟩
  · split
    · rename_i hwaits
      obtain ⟨r, hr, htask⟩ := List.any_eq_true.mp hwaits
      have hnote := hb.note (of_decide_eq_true htask ▸ hb.waiting r hr) .dropped
      exact ⟨hnote.turn, fun r' hr' => hb.waiting r' (List.mem_filter.mp hr').1, hnote.checks,
        hnote.log⟩
    · unfold dropCheck
      split
      · rename_i hany
        obtain ⟨k, hk, htask⟩ := List.any_eq_true.mp hany
        have hnote := hb.note (of_decide_eq_true htask ▸ hb.checks k hk) .dropped
        exact ⟨hnote.turn, hnote.waiting, fun k' hk' => hb.checks k' (List.mem_filter.mp hk').1,
          hnote.log⟩
      · exact hb

theorem answerChecks (hb : m.Below bound) (target : Nat) :
    (m.answerChecks target).Below bound := by
  refine ⟨hb.turn, hb.waiting, fun k hk => hb.checks k (List.mem_filter.mp hk).1, fun e he => ?_⟩
  obtain ⟨extra, hlog, hextra⟩ := m.answerChecks_log target
  rw [hlog] at he
  rcases List.mem_append.mp he with he | he
  · exact hb.log e he
  · obtain ⟨-, k, hk, htask⟩ := hextra e he
    exact htask ▸ hb.checks k hk

theorem check (hb : m.Below bound) {task : Nat} (htask : task < bound) (limit : Duration)
    (delay : Nat) (outcome : Except Failure Unit) :
    (m.check task limit delay outcome).Below bound := by
  unfold Machine.check
  split
  · have hplan :
        Below { m with checks := m.checks ++ [m.plan task limit delay outcome] } bound := by
      refine ⟨hb.turn, hb.waiting, fun k hk => ?_, hb.log⟩
      rcases List.mem_append.mp hk with hk | hk
      · exact hb.checks k hk
      · rwa [List.mem_singleton.mp hk, plan_task]
    exact hplan.answerChecks m.now
  · exact hb.note htask _

end Below

end Machine

/-- A lifecycle, the number of the next task, and what has become of the calls: those that were
made, in this order, and the numbers of those that were dropped while they waited. -/
structure Course where
  machine : Machine := {}
  fresh : Nat := 0
  asked : List Request := []
  lapsed : List Nat := []

/-- What can happen next. -/
inductive Move
  /-- A call is made; its work would take `delay` and give `outcome`. -/
  | ask (transition : Transition) (delay : Nat) (outcome : Except Failure Unit)
  | take
  | complete
  | cancel (task : Nat)
  /-- Health is checked. -/
  | check (limit : Duration) (delay : Nat) (outcome : Except Failure Unit)
  /-- Checks that end by an instant are answered. -/
  | answer (target : Nat)
  | elapse (ms : Nat)

namespace Course

/-- One step. -/
def step (c : Course) : Move → Course
  | .ask transition delay outcome =>
      let r : Request := { task := c.fresh, transition, delay, outcome }
      { c with machine := c.machine.ask r, fresh := c.fresh + 1, asked := c.asked ++ [r] }
  | .take => { c with machine := c.machine.take }
  | .complete => { c with machine := c.machine.complete }
  | .cancel task =>
      let lapses := !c.machine.turn.any (·.request.task = task) &&
        c.machine.waiting.any (·.task = task)
      { c with
        machine := c.machine.cancel task
        lapsed := if lapses then c.lapsed ++ [task] else c.lapsed }
  | .check limit delay outcome =>
      { c with machine := c.machine.check c.fresh limit delay outcome, fresh := c.fresh + 1 }
  | .answer target => { c with machine := c.machine.answerChecks target }
  | .elapse ms => { c with machine := c.machine.elapse ms }

/-- One step after the other. -/
def run (c : Course) (moves : List Move) : Course := moves.foldl step c

theorem run_append (c : Course) (first second : List Move) :
    c.run (first ++ second) = (c.run first).run second := List.foldl_append

/-! ## What a step can do -/

/-- Numbers of tasks are used once, and health checks have numbers of their own. -/
structure Numbered (c : Course) : Prop where
  asked : ∀ r ∈ c.asked, r.task < c.fresh
  distinct : (c.asked.map (·.task)).Nodup
  lapsed : ∀ task ∈ c.lapsed, task < c.fresh
  checks : ∀ k ∈ c.machine.checks, ∀ r ∈ c.asked, r.task ≠ k.task
  machine : c.machine.Below c.fresh

/-- A step that has nothing to do with the calls. -/
structure Aside (c c' : Course) : Prop where
  turn : c'.machine.turn = c.machine.turn
  waiting : c'.machine.waiting = c.machine.waiting
  status : c'.machine.status = c.machine.status
  guarded : c'.machine.guarded = c.machine.guarded
  asked : c'.asked = c.asked
  lapsed : c'.lapsed = c.lapsed
  now : c.machine.now ≤ c'.machine.now
  log : ∃ extra, c'.machine.log = c.machine.log ++ extra ∧
    ∀ e ∈ extra, e.event ≠ .began ∧ ∀ r ∈ c.asked, r.task ≠ e.task

/-- All that one step can do. -/
inductive Effect (c : Course) : Course → Prop
  | aside {c' : Course} (h : Aside c c') : Effect c c'
  | asked (r : Request) (hfresh : r.task = c.fresh) :
      Effect c { c with machine := c.machine.ask r, fresh := c.fresh + 1, asked := c.asked ++ [r] }
  | refused (r : Request) (rest : List Request) (failure : Failure)
      (hfree : c.machine.turn = none) (hfront : c.machine.waiting = r :: rest)
      (hrefused : Machine.refusal? c.machine.guarded r.transition = some failure) :
      Effect c { c with
        machine := { c.machine.note r.task (.ended (.error failure)) with waiting := rest } }
  | began (r : Request) (rest : List Request)
      (hfree : c.machine.turn = none) (hfront : c.machine.waiting = r :: rest)
      (hruns : Machine.refusal? c.machine.guarded r.transition = none) :
      Effect c { c with
        machine := { c.machine.begin r with
          turn := some ⟨r, c.machine.now + r.delay⟩, waiting := rest } }
  | completed (t : Turn) (hturn : c.machine.turn = some t) :
      Effect c { c with machine := { c.machine.finish t.request with turn := none } }
  | cut (t : Turn) (hturn : c.machine.turn = some t) :
      Effect c { c with
        machine := { c.machine.note t.request.task .dropped with turn := none } }
  | lapsed (task : Nat) (hwaits : ∃ r ∈ c.machine.waiting, r.task = task) :
      Effect c { c with
        machine := { c.machine with
          waiting := c.machine.waiting.filter (·.task ≠ task) }.note task .dropped
        lapsed := c.lapsed ++ [task] }

theorem Aside.refl (c : Course) : Aside c c :=
  ⟨rfl, rfl, rfl, rfl, rfl, rfl, Nat.le_refl _, [], by simp, by simp⟩

theorem Numbered.aside_answer {c : Course} (hn : c.Numbered) (target : Nat) :
    Aside c (c.step (.answer target)) := by
  obtain ⟨extra, hlog, hextra⟩ := c.machine.answerChecks_log target
  refine ⟨rfl, rfl, rfl, rfl, rfl, rfl, Nat.le_refl _, extra, hlog, fun e he => ?_⟩
  obtain ⟨hevent, k, hk, htask⟩ := hextra e he
  exact ⟨hevent, fun r hr => htask ▸ hn.checks k hk r hr⟩

theorem Numbered.aside_check {c : Course} (hn : c.Numbered) (limit : Duration) (delay : Nat)
    (outcome : Except Failure Unit) : Aside c (c.step (.check limit delay outcome)) := by
  have hother : ∀ r ∈ c.asked, r.task ≠ c.fresh := fun r hr => Nat.ne_of_lt (hn.asked r hr)
  simp only [step, Machine.check]
  split
  · obtain ⟨extra, hlog, hextra⟩ := Machine.answerChecks_log
      { c.machine with
        checks := c.machine.checks ++ [c.machine.plan c.fresh limit delay outcome] } c.machine.now
    refine ⟨rfl, rfl, rfl, rfl, rfl, rfl, Nat.le_refl _, extra, hlog, fun e he => ?_⟩
    obtain ⟨hevent, k, hk, htask⟩ := hextra e he
    refine ⟨hevent, fun r hr => ?_⟩
    -- What is answered is an older check, or the new one, whose limit may be zero.
    rcases List.mem_append.mp hk with hk | hk
    · exact htask ▸ hn.checks k hk r hr
    · rw [← htask, List.mem_singleton.mp hk, Machine.plan_task]
      exact hother r hr
  · refine ⟨rfl, rfl, rfl, rfl, rfl, rfl, Nat.le_refl _, _, rfl, fun e he => ?_⟩
    rw [List.mem_singleton.mp he]
    exact ⟨nofun, hother⟩

theorem Numbered.aside_dropCheck {c : Course} (hn : c.Numbered) (task : Nat) :
    Aside c { c with machine := c.machine.dropCheck task } := by
  unfold Machine.dropCheck
  split
  · rename_i hany
    obtain ⟨k, hk, htask⟩ := List.any_eq_true.mp hany
    refine ⟨rfl, rfl, rfl, rfl, rfl, rfl, Nat.le_refl _, _, rfl, fun e he => ?_⟩
    rw [List.mem_singleton.mp he, ← of_decide_eq_true htask]
    exact ⟨nofun, hn.checks k hk⟩
  · exact Aside.refl c

/-- Every step has one of the effects. -/
theorem Numbered.effect {c : Course} (hn : c.Numbered) (mv : Move) : Effect c (c.step mv) := by
  cases mv with
  | ask transition delay outcome => exact .asked _ rfl
  | take =>
      simp only [step, Machine.take]
      split
      · rename_i r rest hfree hfront
        split
        · rename_i failure hrefused
          exact .refused r rest failure hfree hfront hrefused
        · rename_i hruns
          exact .began r rest hfree hfront hruns
      · exact .aside (Aside.refl c)
  | complete =>
      simp only [step, Machine.complete]
      split
      · rename_i t hturn
        exact .completed t hturn
      · exact .aside (Aside.refl c)
  | cancel task =>
      simp only [step, Machine.cancel]
      by_cases hturn : c.machine.turn.any (·.request.task = task)
      · -- Dropped in its turn.
        obtain ⟨t, ht, htask⟩ := (Option.any_eq_true _ _).mp hturn
        rw [if_pos hturn, ← of_decide_eq_true htask]
        simpa [ht] using Effect.cut t ht
      · rw [if_neg hturn]
        by_cases hwaits : c.machine.waiting.any (·.task = task)
        · -- Dropped while it waited.
          obtain ⟨r, hr, htask⟩ := List.any_eq_true.mp hwaits
          simpa [hturn, hwaits] using Effect.lapsed task ⟨r, hr, of_decide_eq_true htask⟩
        · simpa [hturn, hwaits] using Effect.aside (hn.aside_dropCheck task)
  | check limit delay outcome => exact .aside (hn.aside_check limit delay outcome)
  | answer target => exact .aside (hn.aside_answer target)
  | elapse ms =>
      have hlog : (c.machine.elapse ms).log = c.machine.log ++ [] := (List.append_nil _).symm
      exact .aside ⟨rfl, rfl, rfl, rfl, rfl, rfl, Nat.le_add_right _ _, [], hlog, by simp⟩

/-- The next call has the next number. -/
theorem Numbered.ask {c : Course} (hn : c.Numbered) {r : Request} (hfresh : r.task = c.fresh) :
    Numbered { c with
      machine := c.machine.ask r, fresh := c.fresh + 1, asked := c.asked ++ [r] } := by
  have hlt : r.task < c.fresh + 1 := by omega
  refine ⟨?_, ?_, fun task ht => Nat.lt_succ_of_lt (hn.lapsed task ht), ?_,
    (hn.machine.mono (Nat.le_succ _)).ask hlt⟩
  · intro r' hr'
    rcases List.mem_append.mp hr' with hr' | hr'
    · exact Nat.lt_succ_of_lt (hn.asked r' hr')
    · rwa [List.mem_singleton.mp hr']
  · rw [List.map_append, List.nodup_append]
    refine ⟨hn.distinct, by simp, fun a ha b hb => ?_⟩
    obtain ⟨r', hr', rfl⟩ := List.mem_map.mp ha
    have hlt' : r'.task < r.task := hfresh ▸ hn.asked r' hr'
    rw [List.mem_singleton.mp hb]
    exact Nat.ne_of_lt hlt'
  · intro k hk r' hr'
    rcases List.mem_append.mp hr' with hr' | hr'
    · exact hn.checks k hk r' hr'
    · rw [List.mem_singleton.mp hr', hfresh]
      exact Nat.ne_of_gt (hn.machine.checks k hk)

theorem Numbered.check {c : Course} (hn : c.Numbered) (limit : Duration) (delay : Nat)
    (outcome : Except Failure Unit) : (c.step (.check limit delay outcome)).Numbered := by
  have hb := hn.machine.mono (Nat.le_succ c.fresh)
  refine ⟨fun r hr => Nat.lt_succ_of_lt (hn.asked r hr), hn.distinct,
    fun task ht => Nat.lt_succ_of_lt (hn.lapsed task ht), fun k hk r hr => ?_,
    hb.check (Nat.lt_succ_self _) limit delay outcome⟩
  rcases Machine.mem_checks_check hk with hk | htask
  · exact hn.checks k hk r hr
  · exact htask ▸ Nat.ne_of_lt (hn.asked r hr)

theorem Numbered.cancel {c : Course} (hn : c.Numbered) (task : Nat) :
    (c.step (.cancel task)).Numbered := by
  refine ⟨hn.asked, hn.distinct, fun task' ht => ?_,
    fun k hk => hn.checks k (Machine.mem_checks_cancel hk), hn.machine.cancel task⟩
  simp only [Course.step] at ht
  split at ht
  · rename_i hlapses
    rcases List.mem_append.mp ht with ht | ht
    · exact hn.lapsed task' ht
    · -- Whoever lapses has waited, so its number has been given away.
      obtain ⟨r, hr, htask⟩ := List.any_eq_true.mp (Bool.and_eq_true_iff.mp hlapses).2
      rw [List.mem_singleton.mp ht, ← of_decide_eq_true htask]
      exact hn.machine.waiting r hr
  · exact hn.lapsed task' ht

/-- Every step keeps the numbers apart. -/
theorem Numbered.step {c : Course} (hn : c.Numbered) (mv : Move) : (c.step mv).Numbered := by
  cases mv with
  | ask transition delay outcome => exact hn.ask rfl
  | take =>
      exact ⟨hn.asked, hn.distinct, hn.lapsed,
        fun k hk => hn.checks k (c.machine.take_checks ▸ hk), hn.machine.take⟩
  | complete =>
      exact ⟨hn.asked, hn.distinct, hn.lapsed,
        fun k hk => hn.checks k (c.machine.complete_checks ▸ hk), hn.machine.complete⟩
  | cancel task => exact hn.cancel task
  | check limit delay outcome => exact hn.check limit delay outcome
  | answer target =>
      exact ⟨hn.asked, hn.distinct, hn.lapsed,
        fun k hk => hn.checks k (List.mem_filter.mp hk).1, hn.machine.answerChecks target⟩
  | elapse ms =>
      exact ⟨hn.asked, hn.distinct, hn.lapsed, hn.checks,
        ⟨hn.machine.turn, hn.machine.waiting, hn.machine.checks, hn.machine.log⟩⟩

theorem Numbered.start : Numbered {} := by
  refine ⟨?_, List.nodup_nil, ?_, ?_, Machine.Below.start 0⟩
  · intro r hr
    cases hr
  · intro task htask
    cases htask
  · intro k hk
    cases hk

end Course

end KeyLease.Lifecycle
