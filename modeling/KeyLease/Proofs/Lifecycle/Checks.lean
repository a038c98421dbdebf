import KeyLease.Proofs.Lifecycle.Erasure
import Mathlib.Data.List.Basic

set_option autoImplicit false

/-!
# One health check among transitions

`Machine.trace` is all that a machine knows of one task that checks health. Whatever happens to
other tasks leaves it alone, but for answering what is due. So a check is in one of two stages, and
stays so: it waits, and its time has not passed; or it has been answered, at its time and with its
result (`Stage`).
-/

namespace KeyLease.Lifecycle

/-- What the log tells of a check that is answered. -/
def Check.entry (k : Check) : Entry := ⟨k.ends, k.task, .ended k.result⟩

/-- The end of a task that an entry tells of. -/
def Entry.verdict? (e : Entry) : Option Machine.Verdict :=
  match e.event with
  | .began => none
  | .ended result => some (.ended result)
  | .dropped => some .dropped

namespace Machine

variable {m m' : Machine} {r : Request} {task n : Nat} {k : Check}

/-- All that is known of a task that checks health: where it waits, and what the log tells. -/
def trace (m : Machine) (n : Nat) : List Check × List Entry :=
  (m.checks.filter (·.task = n), m.log.filter (·.task = n))

theorem mem_checks_of_trace {entries : List Entry} (htrace : m.trace k.task = ([k], entries)) :
    k ∈ m.checks := by
  have hchecks : m.checks.filter (·.task = k.task) = [k] := congrArg Prod.fst htrace
  have hmem : k ∈ m.checks.filter (·.task = k.task) := hchecks ▸ List.mem_singleton.mpr rfl
  exact (List.mem_filter.mp hmem).1

/-! ## What leaves the trace alone -/

theorem trace_note (htask : task ≠ n) (event : Event) :
    (m.note task event).trace n = m.trace n := by
  simp [trace, htask]

theorem trace_begin (hr : r.task ≠ n) : (m.begin r).trace n = m.trace n := by
  simp [trace, hr]

theorem trace_finish (hr : r.task ≠ n) : (m.finish r).trace n = m.trace n := by
  simp [trace, hr]

theorem trace_serveUntil {ws : List Request} (hws : ∀ r ∈ ws, r.task ≠ n) (target : Nat)
    (m : Machine) : (m.serveUntil target ws).trace n = m.trace n := by
  revert hws
  refine serveUntil_induction
    (motive := fun m ws out => (∀ r ∈ ws, r.task ≠ n) → out.trace n = m.trace n)
    (fun m _ => rfl) ?_ ?_ ?_ m ws
  · intro m r rest failure out _ ih hws
    rw [ih fun r' hr' => hws r' (List.mem_cons_of_mem _ hr'), trace_note (hws r List.mem_cons_self)]
  · intro m r rest out _ _ ih hws
    have hr := hws r List.mem_cons_self
    rw [ih fun r' hr' => hws r' (List.mem_cons_of_mem _ hr'), trace_finish hr]
    exact trace_begin hr
  · intro m r rest _ _ hws
    exact trace_begin (hws r List.mem_cons_self)

theorem trace_dropCheck (htask : task ≠ n) : (m.dropCheck task).trace n = m.trace n := by
  have hkept : (m.checks.filter (·.task ≠ task)).filter (·.task = n) =
      m.checks.filter (·.task = n) := by
    rw [List.filter_filter]
    refine List.filter_congr fun k _ => ?_
    by_cases hk : k.task = n
    · simp [hk, htask.symm]
    · simp [hk]
  unfold dropCheck
  split
  · rw [trace_note htask]
    exact Prod.ext hkept rfl
  · rfl

theorem trace_cancel (htask : task ≠ n) : (m.cancel task).trace n = m.trace n := by
  unfold cancel
  split
  · exact trace_note (m := m) htask .dropped
  · split
    · exact trace_note (m := m) htask .dropped
    · exact trace_dropCheck htask

/-- Who has come to no check is not dropped as one. -/
theorem dropCheck_of_trace (hnone : (m.trace n).1 = []) : m.dropCheck n = m := by
  have hno : ¬ m.checks.any (·.task = n) := by
    intro hany
    obtain ⟨k, hk, htask⟩ := List.any_eq_true.mp hany
    exact List.filter_eq_nil_iff.mp hnone k hk htask
  rw [dropCheck, if_neg hno]

namespace Calls

variable (hc : m.Calls (· ≠ n))
include hc

theorem trace_request (hr : r.task ≠ n) : (m.request r).trace n = m.trace n := by
  rw [request_eq]
  split
  · rfl
  · exact trace_serveUntil (hc.ask hr).waiting _ _

theorem trace_drop (htask : task ≠ n) : (m.drop task).trace n = m.trace n := by
  rw [drop_eq]
  split
  · rw [trace_serveUntil hc.waiting, trace_cancel htask]
  · exact trace_cancel htask

theorem trace_take : m.take.trace n = m.trace n := by
  unfold Machine.take
  split
  · rename_i r rest _ hfront
    have hr : r.task ≠ n := hc.waiting r (by simp [hfront])
    split
    · rename_i failure _
      exact trace_note (m := m) hr (.ended (.error failure))
    · exact trace_begin hr
  · rfl

theorem trace_complete : m.complete.trace n = m.trace n := by
  unfold Machine.complete
  split
  · rename_i t ht
    exact trace_finish (hc.turn t ht)
  · rfl

/-- As time passes only what is due is answered. -/
theorem trace_passUntil (target : Nat) :
    (m.passUntil target).trace n = (m.answerChecks target).trace n := by
  rcases m.due_or_ahead target with ⟨t, hturn, hends⟩ | hahead
  · rw [passUntil_of_due hturn hends]
    exact (trace_serveUntil hc.waiting _ _).trans (trace_finish (hc.turn t hturn))
  · rw [passUntil_of_ahead hahead]
    rfl

end Calls

/-! ## What answering does -/

theorem trace_answerChecks (m : Machine) (target : Nat) :
    (m.answerChecks target).trace n =
      ((m.trace n).1.filter (target < ·.ends),
        (m.trace n).2 ++ ((m.trace n).1.filter (·.ends ≤ target)).map Check.entry) := by
  have hanswered : ∀ ks : List Check,
      (ks.map Check.entry).filter (·.task = n) = (ks.filter (·.task = n)).map Check.entry := by
    intro ks
    rw [List.filter_map]
    rfl
  refine Prod.ext (List.filter_comm _ _ _) ?_
  have hmap := hanswered (m.checks.filter (·.ends ≤ target))
  rw [List.filter_comm] at hmap
  exact (List.filter_append _ _).trans (congrArg _ hmap)

/-- Another check answers what is due, if the lifecycle is connected. -/
theorem trace_check (htask : task ≠ n) (limit : Duration) (delay : Nat)
    (outcome : Except Failure Unit) :
    (m.check task limit delay outcome).trace n = m.trace n ∨
      (m.check task limit delay outcome).trace n = (m.answerChecks m.now).trace n := by
  unfold check
  split
  · have hplan : (m.plan task limit delay outcome).task ≠ n := by rwa [plan_task]
    -- The check that is added is not this task's, so what is answered of it is the same.
    have hmore : trace { m with checks := m.checks ++ [m.plan task limit delay outcome] } n =
        m.trace n := by
      simp [trace, hplan]
    refine Or.inr ?_
    rw [trace_answerChecks, trace_answerChecks, hmore]
  · exact Or.inl (trace_note htask _)

/-! ## The stages of a check -/

/-- A check waits and its time has not passed, or it has been answered at its time. -/
inductive Stage (k : Check) (m : Machine) : Prop
  | waits (htrace : m.trace k.task = ([k], [])) (hnow : m.now ≤ k.ends)
  | told (htrace : m.trace k.task = ([], [k.entry])) (hnow : k.ends ≤ m.now)

namespace Stage

theorem same (hs : Stage k m) (htrace : m'.trace k.task = m.trace k.task)
    (hnow : m'.now = m.now) : Stage k m' := by
  cases hs with
  | waits hwaits hle => exact .waits (htrace.trans hwaits) (hnow ▸ hle)
  | told htold hle => exact .told (htrace.trans htold) (hnow ▸ hle)

/-- What is due at an instant is answered, and the clock comes there. -/
theorem answered (hs : Stage k m) (target : Nat)
    (htrace : m'.trace k.task = (m.answerChecks target).trace k.task)
    (hnow : m'.now = max m.now target) : Stage k m' := by
  rw [trace_answerChecks] at htrace
  cases hs with
  | waits hwaits hle =>
      rw [hwaits] at htrace
      by_cases hdue : k.ends ≤ target
      · exact .told (by simpa [hdue] using htrace) (hnow ▸ Nat.le_trans hdue (Nat.le_max_right _ _))
      · have hahead : target < k.ends := Nat.lt_of_not_le hdue
        exact .waits (by simpa [hdue, hahead] using htrace)
          (hnow ▸ Nat.max_le.mpr ⟨hle, Nat.le_of_lt hahead⟩)
  | told htold hle =>
      rw [htold] at htrace
      exact .told (by simpa using htrace) (hnow ▸ Nat.le_trans hle (Nat.le_max_left _ _))

end Stage

/-- What a check that starts now will say, and when: what it says at once, or what is planned. -/
def promise (m : Machine) (task : Nat) (limit : Duration) (delay : Nat)
    (outcome : Except Failure Unit) : Check :=
  match m.status with
  | .connected => m.plan task limit delay outcome
  | status => ⟨task, m.now, status.health outcome⟩

theorem now_le_plan (m : Machine) (task : Nat) (limit : Duration) (delay : Nat)
    (outcome : Except Failure Unit) : m.now ≤ (m.plan task limit delay outcome).ends := by
  unfold plan
  split <;> exact Nat.le_add_right _ _

theorem promise_task (m : Machine) (task : Nat) (limit : Duration) (delay : Nat)
    (outcome : Except Failure Unit) : (m.promise task limit delay outcome).task = task := by
  unfold promise
  split
  · exact plan_task m task limit delay outcome
  · rfl

theorem promise_ends_of_not_connected (hstatus : m.status ≠ .connected) {limit : Duration}
    {delay : Nat} {outcome : Except Failure Unit} :
    (m.promise task limit delay outcome).ends = m.now := by
  unfold promise
  split
  · exact absurd ‹_› hstatus
  · rfl

/-- A check starts in one of its stages. -/
theorem Stage.start (hnone : m.trace task = ([], [])) (limit : Duration) (delay : Nat)
    (outcome : Except Failure Unit) :
    Stage (m.promise task limit delay outcome) (m.check task limit delay outcome) := by
  have hchecks : m.checks.filter (·.task = task) = [] := congrArg Prod.fst hnone
  have hlog : m.log.filter (·.task = task) = [] := congrArg Prod.snd hnone
  cases hstatus : m.status with
  | connected =>
      simp only [promise, check, hstatus]
      have htask := m.plan_task task limit delay outcome
      have hadded : trace { m with checks := m.checks ++ [m.plan task limit delay outcome] }
          (m.plan task limit delay outcome).task = ([m.plan task limit delay outcome], []) := by
        simp [trace, htask, hchecks, hlog]
      -- It waits as planned, and may be due at once.
      exact (Stage.waits hadded (m.now_le_plan task limit delay outcome)).answered m.now rfl
        (Nat.max_self _).symm
  | uninitialized =>
      simp only [promise, check, hstatus]
      exact .told (by simp [trace, hchecks, hlog, Check.entry]) (Nat.le_refl m.now)
  | disconnected =>
      simp only [promise, check, hstatus]
      exact .told (by simp [trace, hchecks, hlog, Check.entry]) (Nat.le_refl m.now)

/-! ## What a task is told -/

/-- Only what the log tells of a task decides how it came to its end. -/
theorem verdict?_eq_trace (m : Machine) (n : Nat) :
    m.verdict? n = (m.trace n).2.findSome? Entry.verdict? := by
  simp only [verdict?, trace]
  induction m.log with
  | nil => rfl
  | cons e rest ih =>
      by_cases htask : e.task = n
      · simp only [List.filter_cons, List.findSome?_cons, htask, decide_true, if_true, ih]
        rfl
      · simp only [List.filter_cons, List.findSome?_cons, htask, decide_false, if_false, ih,
          Bool.false_eq_true]

theorem verdict?_of_waits (htrace : m.trace n = ([k], [])) : m.verdict? n = none := by
  rw [verdict?_eq_trace, htrace]
  rfl

theorem verdict?_of_told (htrace : m.trace n = ([], [k.entry])) :
    m.verdict? n = some (.ended k.result) := by
  rw [verdict?_eq_trace, htrace]
  rfl

/-- What was known of a task without checks is all there is to know. -/
theorem verdict?_bare {beside : Nat → Bool} (hn : beside n = false) :
    (m.bare beside).verdict? n = m.verdict? n := by
  have hlog : ((m.bare beside).trace n).2 = (m.trace n).2 := by
    refine (List.filter_filter ..).trans (List.filter_congr fun e _ => ?_)
    by_cases htask : e.task = n
    · simp [htask, hn]
    · simp [htask]
  rw [verdict?_eq_trace, verdict?_eq_trace, hlog]

end Machine

end KeyLease.Lifecycle
