import KeyLease.Proofs.Lifecycle.Turns

set_option autoImplicit false

/-!
# Transitions as they are without their health checks

`Machine.bare` takes from a machine its health checks and all that the log tells of them. Every
operation on transitions commutes with it, and every operation on health checks is undone by it:
transitions neither read nor write what belongs to checks. `beside` tells the numbers of the tasks
that check health; `Machine.Apart` says that the machine keeps to it.
-/

namespace KeyLease.Lifecycle

namespace Machine

variable {beside : Nat → Bool} {m : Machine} {r : Request} {task target : Nat}

/-! ## Without checks -/

/-- A machine that knows nothing of its health checks. -/
def bare (beside : Nat → Bool) (m : Machine) : Machine :=
  { m with checks := [], log := m.log.filter fun e => !beside e.task }

section Fields

variable (beside : Nat → Bool) (m : Machine)

@[simp] theorem bare_now : (m.bare beside).now = m.now := rfl

@[simp] theorem bare_status : (m.bare beside).status = m.status := rfl

@[simp] theorem bare_guarded : (m.bare beside).guarded = m.guarded := rfl

@[simp] theorem bare_turn : (m.bare beside).turn = m.turn := rfl

@[simp] theorem bare_waiting : (m.bare beside).waiting = m.waiting := rfl

end Fields

/-- The tasks that check health are those beside the transitions, and no others. -/
structure Apart (beside : Nat → Bool) (m : Machine) : Prop where
  calls : m.Calls fun task => beside task = false
  checks : ∀ k ∈ m.checks, beside k.task = true

theorem bare_note (htask : beside task = false) (event : Event) :
    (m.note task event).bare beside = (m.bare beside).note task event := by
  simp [bare, note, htask]

theorem bare_note_of_beside (htask : beside task = true) (event : Event) :
    (m.note task event).bare beside = m.bare beside := by
  simp [bare, note, htask]

theorem bare_begin (hr : beside r.task = false) :
    (m.begin r).bare beside = (m.bare beside).begin r := by
  unfold begin
  cases r.transition with
  | connect => exact bare_note hr _
  | disconnect => exact congrArg (publish · .disconnected) (bare_note hr _)

theorem bare_finish (hr : beside r.task = false) :
    (m.finish r).bare beside = (m.bare beside).finish r := by
  unfold finish
  cases r.transition <;> cases r.outcome
  · exact bare_note hr _
  · exact congrArg (publish · .connected) (bare_note hr _)
  · exact bare_note hr _
  · exact bare_note hr _

theorem bare_serveUntil {ws : List Request} (hws : ∀ r ∈ ws, beside r.task = false)
    (target : Nat) (m : Machine) :
    (m.serveUntil target ws).bare beside = (m.bare beside).serveUntil target ws := by
  revert hws
  refine serveUntil_induction (motive := fun m ws out => (∀ r ∈ ws, beside r.task = false) →
    out.bare beside = (m.bare beside).serveUntil target ws) (fun m _ => rfl) ?_ ?_ ?_ m ws
  · intro m r rest failure out hrefusal ih hws
    -- Transitions are refused by the guarded status, which is left as it is.
    have hbare : refusal? (m.bare beside).guarded r.transition = some failure := hrefusal
    rw [ih fun r' hr' => hws r' (List.mem_cons_of_mem _ hr'), bare_note (hws r List.mem_cons_self)]
    simp only [serveUntil, hbare]
  · intro m r rest out hruns hends ih hws
    have hr := hws r List.mem_cons_self
    rw [ih fun r' hr' => hws r' (List.mem_cons_of_mem _ hr'), bare_finish hr,
      serveUntil_of_runs (m := m.bare beside) hruns, ← bare_begin hr]
    exact (if_pos hends).symm
  · intro m r rest hruns hlt hws
    rw [serveUntil_of_runs (m := m.bare beside) hruns, ← bare_begin (hws r List.mem_cons_self)]
    exact (if_neg (Nat.not_le.mpr hlt)).symm

theorem bare_ask (m : Machine) (r : Request) :
    (m.ask r).bare beside = (m.bare beside).ask r := rfl

theorem bare_answerChecks_self (m : Machine) (target : Nat) :
    (m.bare beside).answerChecks target = m.bare beside := by
  simp [bare, answerChecks]

namespace Apart

theorem start (beside : Nat → Bool) : Apart beside {} := ⟨.start _, nofun⟩

theorem request (ha : m.Apart beside) (hr : beside r.task = false) :
    (m.request r).Apart beside :=
  ⟨ha.calls.request hr, fun k hk => ha.checks k (m.request_checks r ▸ hk)⟩

theorem drop (ha : m.Apart beside) (task : Nat) : (m.drop task).Apart beside :=
  ⟨ha.calls.drop task, fun k hk => ha.checks k (mem_checks_drop hk)⟩

theorem check (ha : m.Apart beside) (htask : beside task = true) (limit : Duration) (delay : Nat)
    (outcome : Except Failure Unit) : (m.check task limit delay outcome).Apart beside := by
  refine ⟨ha.calls.check _ _ _ _, fun k hk => ?_⟩
  rcases mem_checks_check hk with hk | rfl
  · exact ha.checks k hk
  · exact htask

theorem passUntil (ha : m.Apart beside) (target : Nat) : (m.passUntil target).Apart beside := by
  refine ⟨ha.calls.passUntil target, fun k hk => ?_⟩
  rw [passUntil_checks] at hk
  exact ha.checks k (List.mem_filter.mp hk).1

theorem ask (ha : m.Apart beside) (hr : beside r.task = false) : (m.ask r).Apart beside :=
  ⟨ha.calls.ask hr, ha.checks⟩

theorem take (ha : m.Apart beside) : m.take.Apart beside :=
  ⟨ha.calls.take, fun k hk => ha.checks k (m.take_checks ▸ hk)⟩

theorem complete (ha : m.Apart beside) : m.complete.Apart beside :=
  ⟨ha.calls.complete, fun k hk => ha.checks k (m.complete_checks ▸ hk)⟩

theorem cancel (ha : m.Apart beside) (task : Nat) : (m.cancel task).Apart beside :=
  ⟨ha.calls.cancel task, fun k hk => ha.checks k (mem_checks_cancel hk)⟩

theorem answerChecks (ha : m.Apart beside) (target : Nat) :
    (m.answerChecks target).Apart beside :=
  ⟨⟨ha.calls.turn, ha.calls.waiting⟩, fun k hk => ha.checks k (List.mem_filter.mp hk).1⟩

/-! What belongs to checks does not show. -/

theorem bare_answerChecks (ha : m.Apart beside) (target : Nat) :
    (m.answerChecks target).bare beside = m.bare beside := by
  obtain ⟨extra, hlog, hextra⟩ := m.answerChecks_log target
  -- Whatever is added to the log is the answer of a check.
  have hnone : (extra.filter fun e => !beside e.task) = [] := by
    refine List.filter_eq_nil_iff.mpr fun e he => ?_
    obtain ⟨-, k, hk, htask⟩ := hextra e he
    simp [← htask, ha.checks k hk]
  have hkept : ((m.answerChecks target).log.filter fun e => !beside e.task) =
      m.log.filter fun e => !beside e.task := by
    rw [hlog, List.filter_append, hnone, List.append_nil]
  simp only [bare, hkept]
  rfl

theorem bare_check (ha : m.Apart beside) (htask : beside task = true) (limit : Duration)
    (delay : Nat) (outcome : Except Failure Unit) :
    (m.check task limit delay outcome).bare beside = m.bare beside := by
  unfold Machine.check
  split
  · have hmore : Apart beside
        { m with checks := m.checks ++ [m.plan task limit delay outcome] } := by
      refine ⟨⟨ha.calls.turn, ha.calls.waiting⟩, fun k hk => ?_⟩
      rcases List.mem_append.mp hk with hk | hk
      · exact ha.checks k hk
      · rwa [List.mem_singleton.mp hk, plan_task]
    exact hmore.bare_answerChecks m.now
  · exact bare_note_of_beside htask _

theorem bare_dropCheck (htask : beside task = true) :
    (m.dropCheck task).bare beside = m.bare beside := by
  unfold Machine.dropCheck
  split
  · exact bare_note_of_beside htask _
  · rfl

/-- Nobody else is dropped as a check. -/
theorem dropCheck_of_not (ha : m.Apart beside) (htask : beside task = false) :
    m.dropCheck task = m := by
  have hno : ¬ m.checks.any (·.task = task) := by
    intro hany
    obtain ⟨k, hk, hktask⟩ := List.any_eq_true.mp hany
    have hbeside : beside task = true := of_decide_eq_true hktask ▸ ha.checks k hk
    exact Bool.false_ne_true (htask.symm.trans hbeside)
  rw [Machine.dropCheck, if_neg hno]

theorem bare_cancel (ha : m.Apart beside) (htask : beside task = false) :
    (m.cancel task).bare beside = (m.bare beside).cancel task := by
  have hbare : (m.bare beside).dropCheck task = m.bare beside := rfl
  simp only [Machine.cancel, bare_turn, bare_waiting, hbare, ha.dropCheck_of_not htask]
  split
  · rw [← bare_note htask]
    rfl
  · split
    · rw [bare_note htask]
      rfl
    · rfl

theorem bare_cancel_of_beside (ha : m.Apart beside) (htask : beside task = true) :
    (m.cancel task).bare beside = m.bare beside := by
  rw [ha.calls.cancel_of_not (by simp [htask]), bare_dropCheck htask]

theorem bare_drop (ha : m.Apart beside) (htask : beside task = false) :
    (m.drop task).bare beside = (m.bare beside).drop task := by
  rw [drop_eq, drop_eq, bare_turn, bare_now, bare_waiting, ← ha.bare_cancel htask,
    ← bare_serveUntil ha.calls.waiting]
  exact apply_ite (bare beside) _ _ _

theorem bare_drop_of_beside (ha : m.Apart beside) (htask : beside task = true) :
    (m.drop task).bare beside = m.bare beside := by
  rw [ha.calls.drop_of_not (by simp [htask]), bare_dropCheck htask]

theorem bare_request (ha : m.Apart beside) (hr : beside r.task = false) :
    (m.request r).bare beside = (m.bare beside).request r := by
  rw [request_eq, request_eq, ← bare_ask, bare_turn, bare_now, bare_waiting,
    ← bare_serveUntil (ha.ask hr).calls.waiting]
  exact apply_ite (bare beside) _ _ _

theorem bare_passUntil (ha : m.Apart beside) (target : Nat) :
    (m.passUntil target).bare beside = (m.bare beside).passUntil target := by
  -- What is answered on the way is gone, wherever the clock stands.
  have hanswered : ∀ now, ({ m.answerChecks target with now } : Machine).bare beside =
      { (m.bare beside).answerChecks target with now } := by
    intro now
    rw [bare_answerChecks_self, ← ha.bare_answerChecks target]
    rfl
  rcases m.due_or_ahead target with ⟨t, hturn, hends⟩ | hahead
  · rw [passUntil_of_due hturn hends, passUntil_of_due (m := m.bare beside) hturn hends,
      ← hanswered, ← bare_finish (ha.calls.turn t hturn)]
    have hserved := bare_serveUntil ha.calls.waiting target
      ({ m.answerChecks target with now := t.ends }.finish t.request)
    exact congrArg (fun out : Machine => { out with now := max out.now target }) hserved
  · rw [passUntil_of_ahead hahead, passUntil_of_ahead (m := m.bare beside) hahead]
    exact hanswered _

theorem bare_take (ha : m.Apart beside) : m.take.bare beside = (m.bare beside).take := by
  simp only [Machine.take, bare_turn, bare_waiting, bare_guarded]
  split
  · rename_i r rest _ hfront
    have hr : beside r.task = false := ha.calls.waiting r (by simp [hfront])
    split
    · rw [← bare_note hr]
      rfl
    · rw [← bare_begin hr]
      rfl
  · rfl

theorem bare_complete (ha : m.Apart beside) :
    m.complete.bare beside = (m.bare beside).complete := by
  simp only [Machine.complete, bare_turn]
  split
  · rename_i t ht
    rw [← bare_finish (ha.calls.turn t ht)]
    rfl
  · rfl

end Apart

end Machine

end KeyLease.Lifecycle
