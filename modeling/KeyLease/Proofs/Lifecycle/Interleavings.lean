import KeyLease.Proofs.Lifecycle.Schedules

set_option autoImplicit false

/-!
# Acts between any two steps of a lifecycle

A schedule lets everything happen that is due at an instant before it acts. In an `Interleaving` an
act comes between any two steps: after work has ended and before the next one gets its turn, or at
the very instant at which a check is due and before it is answered. Only the clock waits for what is
due.

`Interleaving.bare_follow` and `Interleaving.trace_of_check` are for interleavings what the theorems
of `Schedules.lean` are for schedules.
-/

namespace KeyLease.Lifecycle

/-- One thing that happens: an act from outside, or something that is due, or time passes. -/
inductive Happening
  | act (a : Act)
  | take
  | complete
  | answer
  | elapse (ms : Nat)

namespace Happening

/-- What happens to health checks, and reading the status. -/
def isBeside (beside : Nat → Bool) : Happening → Bool
  | act a => a.isBeside beside
  | answer => true
  | take | complete | elapse _ => false

def started? : Happening → Option Nat
  | act a => a.started?
  | take | complete | answer | elapse _ => none

end Happening

namespace Machine

/-- What one happening does, and nothing that would come next. -/
def happen (m : Machine) : Happening → Machine
  | .act (.request r) => m.ask r
  | .act (.check task limit delay outcome) => m.check task limit delay outcome
  | .act (.drop task) => m.cancel task
  | .act .look | .act .ensureConnected => m
  | .take => m.take
  | .complete => m.complete
  | .answer => m.answerChecks m.now
  | .elapse ms => m.elapse ms

/-- Work ends when its time has come, and time does not go on over a turn that could be given, nor
over what is due. -/
def Timely (m : Machine) : Happening → Prop
  | .complete => ∀ t, m.turn = some t → t.ends ≤ m.now
  | .elapse ms => (m.turn = none → m.waiting = []) ∧
      (∀ t, m.turn = some t → m.now + ms ≤ t.ends) ∧ ∀ k ∈ m.checks, m.now + ms ≤ k.ends
  | .act _ | .take | .answer => True

/-- One happening after the other. -/
def follow (m : Machine) (hs : List Happening) : Machine := hs.foldl happen m

/-- Each happening comes at its time. -/
def AllTimely : Machine → List Happening → Prop
  | _, [] => True
  | m, h :: rest => m.Timely h ∧ AllTimely (m.happen h) rest

end Machine

/-- Happenings that each come at their time. Every task has a number of its own; those for which
`beside` holds check health. -/
structure Interleaving where
  beside : Nat → Bool
  happenings : List Happening
  timely : Machine.AllTimely {} happenings
  apart : ∀ a, .act a ∈ happenings → a.Apart beside
  distinct : (happenings.filterMap Happening.started?).Nodup

namespace Machine

variable {beside : Nat → Bool} {m : Machine} {h : Happening} {hs : List Happening} {n : Nat}
  {k : Check}

theorem follow_append (m : Machine) (first second : List Happening) :
    m.follow (first ++ second) = (m.follow first).follow second := List.foldl_append

theorem AllTimely.append {first second : List Happening}
    (ht : AllTimely m (first ++ second)) :
    AllTimely m first ∧ AllTimely (m.follow first) second := by
  induction first generalizing m with
  | nil => exact ⟨trivial, ht⟩
  | cons h rest ih =>
      obtain ⟨hrest, hsecond⟩ := ih ht.2
      exact ⟨⟨ht.1, hrest⟩, hsecond⟩

/-! ## Without what is beside -/

theorem Apart.happen (ha : m.Apart beside) (hact : ∀ a, h = .act a → a.Apart beside) :
    (m.happen h).Apart beside := by
  cases h with
  | act a =>
      have hapart := hact a rfl
      cases a with
      | request r => exact ha.ask hapart
      | check task limit delay outcome => exact ha.check hapart limit delay outcome
      | drop task => exact ha.cancel task
      | look => exact ha
      | ensureConnected => exact ha
  | take => exact ha.take
  | complete => exact ha.complete
  | answer => exact ha.answerChecks m.now
  | elapse ms => exact ⟨⟨ha.calls.turn, ha.calls.waiting⟩, ha.checks⟩

/-- The step lemma: what is beside does not show, and the rest is as it always is. -/
theorem Apart.bare_happen (ha : m.Apart beside) (hact : ∀ a, h = .act a → a.Apart beside) :
    (m.happen h).bare beside =
      if h.isBeside beside then m.bare beside else (m.bare beside).happen h := by
  cases h with
  | act a =>
      have hapart := hact a rfl
      cases a with
      | request r => exact bare_ask m r
      | check task limit delay outcome => exact ha.bare_check hapart limit delay outcome
      | drop task =>
          cases htask : beside task with
          | true =>
              rw [if_pos (by simp [Happening.isBeside, Act.isBeside, htask])]
              exact ha.bare_cancel_of_beside htask
          | false =>
              rw [if_neg (by simp [Happening.isBeside, Act.isBeside, htask])]
              exact ha.bare_cancel htask
      | look => rfl
      | ensureConnected => rfl
  | take => exact ha.bare_take
  | complete => exact ha.bare_complete
  | answer => exact ha.bare_answerChecks m.now
  | elapse ms => rfl

theorem Timely.bare (ht : m.Timely h) (beside : Nat → Bool) : (m.bare beside).Timely h := by
  cases h with
  | complete => exact ht
  | elapse ms => exact ⟨ht.1, ht.2.1, nofun⟩
  | act a => trivial
  | take => trivial
  | answer => trivial

/-- The run lemma, by induction on the happenings. -/
theorem Apart.bare_follow (ha : m.Apart beside) (hact : ∀ a, .act a ∈ hs → a.Apart beside) :
    (m.follow hs).bare beside =
      (m.bare beside).follow (hs.filter fun h => !h.isBeside beside) := by
  induction hs generalizing m with
  | nil => rfl
  | cons h rest ih =>
      have hfirst : ∀ a, h = .act a → a.Apart beside := fun a heq =>
        hact a (heq ▸ List.mem_cons_self)
      have hbare := ha.bare_happen hfirst
      refine (ih (ha.happen hfirst) fun a hmem => hact a (List.mem_cons_of_mem _ hmem)).trans ?_
      cases hbeside : h.isBeside beside with
      | true => rw [hbare, if_pos hbeside, List.filter_cons_of_neg (by simp [hbeside])]
      | false =>
          rw [hbare, if_neg (by simp [hbeside]), List.filter_cons_of_pos (by simp [hbeside])]
          rfl

theorem AllTimely.bare (ht : AllTimely m hs) (ha : m.Apart beside)
    (hact : ∀ a, .act a ∈ hs → a.Apart beside) :
    AllTimely (m.bare beside) (hs.filter fun h => !h.isBeside beside) := by
  induction hs generalizing m with
  | nil => trivial
  | cons h rest ih =>
      have hfirst : ∀ a, h = .act a → a.Apart beside := fun a heq =>
        hact a (heq ▸ List.mem_cons_self)
      have hrest := ih ht.2 (ha.happen hfirst) fun a hmem => hact a (List.mem_cons_of_mem _ hmem)
      rw [ha.bare_happen hfirst] at hrest
      cases hbeside : h.isBeside beside with
      | true =>
          rw [if_pos hbeside] at hrest
          rwa [List.filter_cons_of_neg (by simp [hbeside])]
      | false =>
          rw [if_neg (by simp [hbeside])] at hrest
          rw [List.filter_cons_of_pos (by simp [hbeside])]
          exact ⟨ht.1.bare beside, hrest⟩

/-! ## One check -/

theorem Calls.happen {p : Nat → Prop} (hc : m.Calls p)
    (hstart : ∀ task, h.started? = some task → p task) : (m.happen h).Calls p := by
  cases h with
  | act a =>
      cases a with
      | request r => exact hc.ask (hstart r.task rfl)
      | check task limit delay outcome => exact hc.check task limit delay outcome
      | drop task => exact hc.cancel task
      | look => exact hc
      | ensureConnected => exact hc
  | take => exact hc.take
  | complete => exact hc.complete
  | answer => exact ⟨hc.turn, hc.waiting⟩
  | elapse ms => exact ⟨hc.turn, hc.waiting⟩

theorem Calls.follow {p : Nat → Prop} (hc : m.Calls p)
    (hstart : ∀ h ∈ hs, ∀ task, h.started? = some task → p task) : (m.follow hs).Calls p := by
  induction hs generalizing m with
  | nil => exact hc
  | cons h rest ih =>
      exact ih (hc.happen (hstart h List.mem_cons_self)) fun h' hmem =>
        hstart h' (List.mem_cons_of_mem _ hmem)

/-- What happens to other tasks leaves a check alone, or lets it be answered if it is due. -/
theorem Calls.trace_happen (hc : m.Calls (· ≠ n)) (hstart : h.started? ≠ some n)
    (hdrop : h = .act (.drop n) → (m.trace n).1 = []) :
    (m.happen h).trace n = m.trace n ∨ (m.happen h).trace n = (m.answerChecks m.now).trace n := by
  cases h with
  | act a =>
      cases a with
      | request r => exact Or.inl rfl
      | check task limit delay outcome =>
          exact trace_check (fun heq => hstart (congrArg some heq)) limit delay outcome
      | drop task =>
          by_cases htask : task = n
          · subst htask
            have hsame : m.cancel task = m := by
              rw [hc.cancel_of_not (fun hne => hne rfl), dropCheck_of_trace (hdrop rfl)]
            exact Or.inl (congrArg (trace · task) hsame)
          · exact Or.inl (trace_cancel htask)
      | look => exact Or.inl rfl
      | ensureConnected => exact Or.inl rfl
  | take => exact Or.inl hc.trace_take
  | complete => exact Or.inl hc.trace_complete
  | answer => exact Or.inr rfl
  | elapse ms => exact Or.inl rfl

theorem take_now (m : Machine) : m.take.now = m.now := by
  unfold take
  split
  · split
    · rfl
    · exact begin_now m _
  · rfl

theorem complete_now (m : Machine) : m.complete.now = m.now := by
  unfold complete
  split
  · exact finish_now m _
  · rfl

/-- Only the passing of time moves the clock. -/
theorem happen_now (m : Machine) (hclock : ∀ ms, h ≠ .elapse ms) : (m.happen h).now = m.now := by
  cases h with
  | act a =>
      cases a with
      | request r => rfl
      | check task limit delay outcome => exact m.check_now task limit delay outcome
      | drop task => exact m.cancel_now task
      | look => rfl
      | ensureConnected => rfl
  | take => exact m.take_now
  | complete => exact m.complete_now
  | answer => rfl
  | elapse ms => exact absurd rfl (hclock ms)

theorem le_follow_now (m : Machine) (hs : List Happening) : m.now ≤ (m.follow hs).now := by
  induction hs generalizing m with
  | nil => exact Nat.le_refl _
  | cons h rest ih =>
      refine Nat.le_trans ?_ (ih (m.happen h))
      by_cases hclock : ∃ ms, h = .elapse ms
      · obtain ⟨ms, rfl⟩ := hclock
        exact Nat.le_add_right _ _
      · exact Nat.le_of_eq (m.happen_now fun ms heq => hclock ⟨ms, heq⟩).symm

namespace Resting

variable {entries : List Entry}

theorem happen (hr : Resting n entries m) (hstart : h.started? ≠ some n) :
    Resting n entries (m.happen h) := by
  refine ⟨hr.calls.happen fun task htask heq => hstart (heq ▸ htask), ?_⟩
  rcases hr.calls.trace_happen hstart (fun _ => congrArg Prod.fst hr.trace) with hsame | hanswered
  · exact hsame.trans hr.trace
  · exact hanswered.trans (hr.answerChecks _)

theorem follow (hr : Resting n entries m) (hstart : ∀ h ∈ hs, h.started? ≠ some n) :
    Resting n entries (m.follow hs) := by
  induction hs generalizing m with
  | nil => exact hr
  | cons h rest ih =>
      exact ih (hr.happen (hstart h List.mem_cons_self)) fun h' hmem =>
        hstart h' (List.mem_cons_of_mem _ hmem)

end Resting

/-- The step lemma: a check that is not dropped stays in one of its stages. -/
theorem Stage.happen (hs : Stage k m) (hc : m.Calls (· ≠ k.task)) (htimely : m.Timely h)
    (hstart : h.started? ≠ some k.task) (hdrop : h ≠ .act (.drop k.task)) :
    Stage k (m.happen h) := by
  by_cases hclock : ∃ ms, h = .elapse ms
  · obtain ⟨ms, rfl⟩ := hclock
    -- Time never passes beyond what a check waits for.
    cases hs with
    | waits htrace _ => exact .waits htrace (htimely.2.2 k (mem_checks_of_trace htrace))
    | told htrace hnow => exact .told htrace (Nat.le_trans hnow (Nat.le_add_right _ _))
  · have hnow := m.happen_now fun ms heq => hclock ⟨ms, heq⟩
    rcases hc.trace_happen hstart (fun heq => absurd heq hdrop) with hsame | hanswered
    · exact hs.same hsame hnow
    · exact hs.answered m.now hanswered (hnow.trans (Nat.max_self _).symm)

theorem Stage.follow {happenings : List Happening} (hs : Stage k m) (hc : m.Calls (· ≠ k.task))
    (htimely : AllTimely m happenings) (hstart : ∀ h ∈ happenings, h.started? ≠ some k.task)
    (hdrop : .act (.drop k.task) ∉ happenings) : Stage k (m.follow happenings) := by
  induction happenings generalizing m with
  | nil => exact hs
  | cons h rest ih =>
      have hfirst := hstart h List.mem_cons_self
      exact ih
        (hs.happen hc htimely.1 hfirst fun heq => hdrop (heq ▸ List.mem_cons_self))
        (hc.happen fun task htask heq => hfirst (heq ▸ htask)) htimely.2
        (fun h' hmem => hstart h' (List.mem_cons_of_mem _ hmem))
        fun hmem => hdrop (List.mem_cons_of_mem _ hmem)

/-- A check that is dropped while it waits is gone. -/
theorem Stage.dropped (hs : Stage k m) (hc : m.Calls (· ≠ k.task)) :
    (m.cancel k.task).trace k.task = ([], [⟨m.now, k.task, .dropped⟩]) ∨
      (m.cancel k.task).trace k.task = ([], [k.entry]) ∧ k.ends ≤ m.now := by
  rw [hc.cancel_of_not fun hne => hne rfl]
  cases hs with
  | told htrace hnow =>
      rw [dropCheck_of_trace (congrArg Prod.fst htrace)]
      exact Or.inr ⟨htrace, hnow⟩
  | waits htrace _ =>
      have hlog : m.log.filter (·.task = k.task) = [] := congrArg Prod.snd htrace
      have hany : m.checks.any (·.task = k.task) :=
        List.any_eq_true.mpr ⟨k, mem_checks_of_trace htrace, decide_eq_true rfl⟩
      refine Or.inl ?_
      rw [dropCheck, if_pos hany]
      simp [trace, hlog, List.filter_filter]

end Machine

namespace Interleaving

/-- The same happenings, but for what is beside the transitions. -/
def without (c : Interleaving) : Interleaving where
  beside := c.beside
  happenings := c.happenings.filter fun h => !h.isBeside c.beside
  timely := c.timely.bare (.start c.beside) c.apart
  apart := fun a ha => c.apart a (List.mem_filter.mp ha).1
  distinct := c.distinct.sublist (List.filter_sublist.filterMap _)

/-- **Two interleavings.** Up to any moment, the lifecycle has come to where the same happenings
without those beside the transitions bring it, but for what belongs to the checks. -/
theorem bare_follow (c : Interleaving) {first rest : List Happening}
    (hsplit : c.happenings = first ++ rest) :
    (Machine.follow {} first).bare c.beside =
      Machine.follow {} (first.filter fun h => !h.isBeside c.beside) :=
  (Machine.Apart.start c.beside).bare_follow fun a ha =>
    c.apart a (hsplit ▸ List.mem_append_left _ ha)

section Check

variable {c : Interleaving} {before middle rest : List Happening} {n delay : Nat}
  {limit : Duration} {outcome : Except Failure Unit}
  (hsplit : c.happenings =
    before ++ .act (.check n limit delay outcome) :: (middle ++ rest))
include hsplit

/-- The machine in which a check starts knows nothing of it, no later task has its number, and what
follows comes at its time. -/
theorem resting_of_check :
    Machine.Resting n [] (Machine.follow {} before) ∧ (∀ h ∈ middle, h.started? ≠ some n) ∧
      Machine.AllTimely ((Machine.follow {} before).check n limit delay outcome) middle := by
  have hdistinct := c.distinct
  have htimely := c.timely
  rw [hsplit] at hdistinct htimely
  obtain ⟨hbefore, hafter⟩ := started_once hdistinct rfl
  exact ⟨(Machine.Resting.start n).follow hbefore,
    fun h hmem => hafter h (List.mem_append_left _ hmem), htimely.append.2.2.append.1⟩

/-- **What a check is told**, at every later moment. It waits, until its time at most; or it has
been answered at its time; or it was dropped before that. -/
theorem trace_of_check {k : Check}
    (hk : k = (Machine.follow {} before).promise n limit delay outcome) {m : Machine}
    (hm : m = ((Machine.follow {} before).check n limit delay outcome).follow middle) :
    m.trace n = ([k], []) ∧ m.now ≤ k.ends ∨
      m.trace n = ([], [k.entry]) ∧ k.ends ≤ m.now ∨
        ∃ time, m.trace n = ([], [⟨time, n, .dropped⟩]) ∧ .act (.drop n) ∈ middle := by
  obtain ⟨hresting, hmiddle, htimely⟩ := resting_of_check hsplit
  have hstage := Machine.Stage.start hresting.trace limit delay outcome
  have hcalls := hresting.calls.check n limit delay outcome
  have htask : k.task = n := hk ▸ Machine.promise_task _ n limit delay outcome
  rw [← hk] at hstage
  subst hm htask
  by_cases hdrop : .act (.drop k.task) ∈ middle
  · -- Until it is dropped for the first time it is in one of its stages, and then at rest.
    obtain ⟨first, second, rfl, hfirst⟩ := List.eq_append_cons_of_mem hdrop
    have hbefore : ∀ h ∈ first, h.started? ≠ some k.task := fun h hmem =>
      hmiddle h (List.mem_append_left _ hmem)
    have hafter : ∀ h ∈ second, h.started? ≠ some k.task := fun h hmem =>
      hmiddle h (List.mem_append_right _ (List.mem_cons_of_mem _ hmem))
    have hcalls' := hcalls.follow (p := (· ≠ k.task)) fun h hmem task htask heq =>
      hbefore h hmem (heq ▸ htask)
    have hstage' := hstage.follow hcalls htimely.append.1 hbefore hfirst
    rw [Machine.follow_append]
    rcases hstage'.dropped hcalls' with hgone | ⟨htold, hnow⟩
    · have hrest : Machine.Resting k.task _ _ := ⟨hcalls'.cancel k.task, hgone⟩
      exact Or.inr (Or.inr ⟨_, (hrest.follow hafter).trace, hdrop⟩)
    · have hrest : Machine.Resting k.task _ _ := ⟨hcalls'.cancel k.task, htold⟩
      refine Or.inr (Or.inl ⟨(hrest.follow hafter).trace, Nat.le_trans hnow ?_⟩)
      exact Nat.le_trans (Nat.le_of_eq (Machine.cancel_now _ _).symm)
        (Machine.le_follow_now (Machine.cancel _ k.task) second)
  · rcases hstage.follow hcalls htimely hmiddle hdrop with ⟨htrace, hnow⟩ | ⟨htrace, hnow⟩
    · exact Or.inl ⟨htrace, hnow⟩
    · exact Or.inr (Or.inl ⟨htrace, hnow⟩)

/-- Unless the lifecycle is connected the answer is there at once, whatever comes later. -/
theorem trace_of_check_at_once {k : Check}
    (hk : k = (Machine.follow {} before).promise n limit delay outcome) {m : Machine}
    (hm : m = ((Machine.follow {} before).check n limit delay outcome).follow middle)
    (hstatus : (Machine.follow {} before).status ≠ .connected) :
    m.trace n = ([], [k.entry]) ∧ k.ends ≤ m.now := by
  obtain ⟨hresting, hmiddle, -⟩ := resting_of_check hsplit
  subst hk hm
  refine ⟨((hresting.check_of_not_connected hstatus limit delay outcome).follow hmiddle).trace, ?_⟩
  rw [Machine.promise_ends_of_not_connected hstatus,
    ← Machine.check_now _ n limit delay outcome]
  exact Machine.le_follow_now _ middle

end Check

end Interleaving

end KeyLease.Lifecycle
