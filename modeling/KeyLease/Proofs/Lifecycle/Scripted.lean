import KeyLease.Proofs.Lifecycle.Schedules

set_option autoImplicit false

/-!
# Scripts are schedules

A script starts tasks when it comes to them, lets time pass, and waits for tasks to end. Each of these
is an act at some instant, or time that passes as if somebody looked at its end; so wherever a script
brings a lifecycle a schedule brings it (`Timeline.exists_schedule`), and what holds of schedules holds
of all that a script can see.
-/

namespace KeyLease.Lifecycle

/-- To an orderly machine nothing happens at the instant at which it is. -/
theorem Machine.Orderly.passUntil_self {m : Machine} (ho : m.Orderly) : m.passUntil m.now = m := by
  have hkept : m.checks.filter (m.now < ·.ends) = m.checks :=
    List.filter_eq_self.mpr fun k hk => decide_eq_true (ho.prompt.checks k hk)
  have hdue : m.checks.filter (·.ends ≤ m.now) = [] :=
    List.filter_eq_nil_iff.mpr fun k hk => by simpa using ho.prompt.checks k hk
  rw [Machine.passUntil_of_ahead ho.prompt.turn]
  simp only [Machine.answerChecks, hkept, hdue, List.map_nil, List.append_nil, Nat.max_self]

/-- What ends next ends later. -/
theorem Machine.Orderly.now_le_nextEnd {m : Machine} (ho : m.Orderly) {ends : Nat}
    (hends : m.nextEnd? = some ends) : m.now ≤ ends := by
  rcases List.mem_append.mp (List.min?_mem hends) with hturn | hcheck
  · obtain ⟨t, ht, rfl⟩ := List.mem_map.mp hturn
    exact Nat.le_of_lt (ho.prompt.turn t (Option.mem_toList.mp ht))
  · obtain ⟨k, hk, rfl⟩ := List.mem_map.mp hcheck
    exact Nat.le_of_lt (ho.prompt.checks k hk)

namespace Timeline

/-- Acts that have brought a lifecycle to where a timeline is. -/
structure Scheduled (t : Timeline) (beside : Nat → Bool) (acts : List Timed) : Prop where
  machine : t.machine = Machine.play {} acts
  sorted : acts.Pairwise fun a b => a.time ≤ b.time
  past : ∀ a ∈ acts, a.time ≤ t.machine.now
  apart : ∀ a ∈ acts, a.act.Apart beside
  below : ∀ a ∈ acts, ∀ task, a.act.started? = some task → task < t.fresh
  distinct : (acts.filterMap (·.act.started?)).Nodup

variable {t : Timeline} {beside : Nat → Bool} {acts : List Timed}

namespace Scheduled

theorem orderly (h : t.Scheduled beside acts) : t.machine.Orderly :=
  h.machine ▸ Machine.Orderly.start.play acts

/-- One more act, at an instant that has not passed. -/
theorem snoc (h : t.Scheduled beside acts) {time : Nat} (htime : t.machine.now ≤ time) {a : Act}
    (hapart : a.Apart beside) {fresh : Nat} (hfresh : t.fresh ≤ fresh)
    (hnew : ∀ task, a.started? = some task → t.fresh ≤ task ∧ task < fresh)
    (names : List (String × Nat)) :
    Scheduled ⟨(t.machine.passUntil time).act a, names, fresh⟩ beside (acts ++ [⟨time, a⟩]) := by
  have hnow : ((t.machine.passUntil time).act a).now = time := by
    rw [Machine.act_now, h.orderly.settled.passUntil_now]
    exact Nat.max_eq_right htime
  have hpast : ∀ b ∈ acts, b.time ≤ time := fun b hb => Nat.le_trans (h.past b hb) htime
  constructor
  case machine =>
    show (t.machine.passUntil time).act a = _
    rw [h.machine, Machine.play, Machine.play, List.foldl_append]
    rfl
  case sorted =>
    refine List.pairwise_append.mpr ⟨h.sorted, List.pairwise_singleton _ _, fun b hb c hc => ?_⟩
    exact List.mem_singleton.mp hc ▸ hpast b hb
  case past =>
    intro b hb
    rw [show Machine.now _ = time from hnow]
    rcases List.mem_append.mp hb with hb | hb
    · exact hpast b hb
    · exact Nat.le_of_eq (congrArg Timed.time (List.mem_singleton.mp hb))
  case apart =>
    intro b hb
    rcases List.mem_append.mp hb with hb | hb
    · exact h.apart b hb
    · exact List.mem_singleton.mp hb ▸ hapart
  case below =>
    intro b hb task htask
    rcases List.mem_append.mp hb with hb | hb
    · exact Nat.lt_of_lt_of_le (h.below b hb task htask) hfresh
    · rw [List.mem_singleton.mp hb] at htask
      exact (hnew task htask).2
  case distinct =>
    rw [List.filterMap_append, List.nodup_append]
    refine ⟨h.distinct, ?_, fun n hn n' hn' => ?_⟩
    · cases hstart : a.started? with
      | none => simp [hstart]
      | some task => simp [hstart]
    · -- Who started before has a smaller number.
      obtain ⟨b, hb, hstart⟩ := List.mem_filterMap.mp hn
      obtain ⟨c, hc, hstart'⟩ := List.mem_filterMap.mp hn'
      rw [List.mem_singleton.mp hc] at hstart'
      exact Nat.ne_of_lt (Nat.lt_of_lt_of_le (h.below b hb n hstart) (hnew n' hstart').1)

/-- Time passes, as if somebody looked at its end. -/
theorem pass (h : t.Scheduled beside acts) {time : Nat} (htime : t.machine.now ≤ time) :
    Scheduled { t with machine := t.machine.passUntil time } beside (acts ++ [⟨time, .look⟩]) :=
  h.snoc htime (a := .look) trivial (Nat.le_refl _) (fun _ htask => nomatch htask) t.names

theorem drop (h : t.Scheduled beside acts) (task : Nat) :
    ∃ acts', Scheduled { t with machine := t.machine.drop task } beside acts' := by
  have hdropped := h.snoc (Nat.le_refl _) (a := .drop task) trivial (Nat.le_refl _)
    (fun _ htask => nomatch htask) t.names
  rw [h.orderly.passUntil_self] at hdropped
  exact ⟨_, hdropped⟩

/-- A task of either kind starts, and its number goes to its kind. -/
theorem launch (h : t.Scheduled beside acts) (work : Work) (delay : Nat)
    (outcome : Except Failure Unit) (names : List (String × Nat)) :
    ∃ beside' acts', Scheduled
      ⟨launch t.machine t.fresh work delay outcome, names, t.fresh + 1⟩ beside' acts' := by
  obtain ⟨a, beside', hstart, hlaunch, hact, hsame⟩ : ∃ (a : Act) (beside' : Nat → Bool),
      a.started? = some t.fresh ∧
        (∀ m : Machine, m.act a = Timeline.launch m t.fresh work delay outcome) ∧
          a.Apart beside' ∧ ∀ task < t.fresh, beside' task = beside task := by
    cases work with
    | transition transition =>
        exact ⟨.request { task := t.fresh, transition, delay, outcome },
          fun task => task < t.fresh && beside task, rfl, fun _ => rfl, by simp [Act.Apart],
          by simp +contextual⟩
    | health limit =>
        exact ⟨.check t.fresh limit delay outcome, fun task => !(task < t.fresh) || beside task,
          rfl, fun _ => rfl, by simp [Act.Apart], by simp +contextual⟩
  -- The older acts have smaller numbers, so the new number may go to either kind.
  have hkept : t.Scheduled beside' acts := by
    refine ⟨h.machine, h.sorted, h.past, fun a ha => ?_, h.below, h.distinct⟩
    have hapart := h.apart a ha
    have hbelow := h.below a ha
    cases hcase : a.act with
    | request r =>
        rw [hcase] at hapart hbelow
        exact (hsame r.task (hbelow r.task rfl)).trans hapart
    | check task limit delay outcome =>
        rw [hcase] at hapart hbelow
        exact (hsame task (hbelow task rfl)).trans hapart
    | drop task => trivial
    | look => trivial
    | ensureConnected => trivial
  have hstarted := hkept.snoc (Nat.le_refl _) hact (Nat.le_succ t.fresh)
    (fun task htask => Option.some.inj (hstart.symm.trans htask) ▸
      ⟨Nat.le_refl _, Nat.lt_succ_self _⟩) names
  rw [h.orderly.passUntil_self, hlaunch] at hstarted
  exact ⟨beside', _, hstarted⟩

/-- Whoever waits for a task looks at the ends of all that end before. -/
theorem await (h : t.Scheduled beside acts) (task : Nat) :
    ∃ acts', Scheduled { t with machine := t.machine.await task } beside acts' := by
  have hgo : ∀ (rounds : Nat) (m : Machine) (acts : List Timed),
      Scheduled { t with machine := m } beside acts →
        ∃ acts', Scheduled { t with machine := Machine.await.go task rounds m } beside acts' := by
    intro rounds
    induction rounds with
    | zero => exact fun m acts hm => ⟨acts, hm⟩
    | succ rounds ih =>
        intro m acts hm
        unfold Machine.await.go
        split
        · rename_i ends _ hends
          exact ih _ _ (hm.pass (hm.orderly.now_le_nextEnd hends))
        · exact ⟨acts, hm⟩
  exact hgo _ _ _ h

theorem step (h : t.Scheduled beside acts) (s : Step) :
    ∃ beside' acts', Scheduled (t.step s).2 beside' acts' := by
  cases s with
  | start work delay outcome name =>
      cases name with
      | some name => exact h.launch work delay outcome _
      | none =>
          obtain ⟨beside', acts', hlaunched⟩ := h.launch work delay outcome t.names
          exact ⟨beside', hlaunched.await t.fresh⟩
  | join name =>
      simp only [Timeline.step]
      split
      · exact ⟨beside, h.await _⟩
      · exact ⟨beside, acts, h⟩
  | abort name =>
      simp only [Timeline.step]
      split
      · exact ⟨beside, h.drop _⟩
      · exact ⟨beside, acts, h⟩
  | sleep ms => exact ⟨beside, _, h.pass (Nat.le_add_right _ ms)⟩
  | look => exact ⟨beside, acts, h⟩
  | ensureConnected => exact ⟨beside, acts, h⟩

end Scheduled

/-- **Scripts are schedules.** Wherever a script brings a lifecycle, a schedule brings it. -/
theorem exists_schedule (steps : List Step) :
    ∃ s : Schedule, (after {} steps).machine = s.machineAt (after {} steps).machine.now := by
  have hafter : ∀ (t : Timeline) beside acts, t.Scheduled beside acts →
      ∃ beside' acts', (t.after steps).Scheduled beside' acts' := by
    induction steps with
    | nil => exact fun t beside acts h => ⟨beside, acts, h⟩
    | cons s rest ih =>
        intro t beside acts h
        obtain ⟨beside', acts', h'⟩ := h.step s
        exact ih _ beside' acts' h'
  have hstart : Scheduled {} (fun _ => false) [] :=
    ⟨rfl, .nil, nofun, nofun, nofun, List.nodup_nil⟩
  obtain ⟨beside, acts, h⟩ := hafter {} _ [] hstart
  refine ⟨⟨beside, acts, h.sorted, h.apart, h.distinct⟩, ?_⟩
  have hpast : acts.filter (·.time ≤ (after {} steps).machine.now) = acts :=
    List.filter_eq_self.mpr fun a ha => decide_eq_true (h.past a ha)
  rw [Schedule.machineAt, hpast, ← h.machine, h.orderly.passUntil_self]

end Timeline

end KeyLease.Lifecycle
