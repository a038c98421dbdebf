import KeyLease.Proofs.Memory.Run

set_option autoImplicit false

/-!
# The sweep of a memory store as a task

A store that sweeps has a task for it. To connect is to start a task and to keep a handle on it, to
disconnect is to stop the task that the handle is on. A task handles one tick at a time, each when
it gets to it, which may be late; several ticks may be due by then, and whatever clients do may come
before. Only the first turn of a task, in which it reads the clock to make its schedule, is assumed
to come before the clock moves: the schedule begins when the store is connected. `Staffed` is a
store with its tasks, `Staffed.step` one step of somebody.

The invariant is `Attended`: a connected store has one task, on which it has its handle; the next
tick is due within one interval of the last, and no entry in the table had expired by the last. The
main statement is `sweeps_bound_garbage`.
-/

namespace KeyLease.Memory

/-! ## One tick -/

namespace Sweeper

/-- The schedule after one tick that was due and is handled at `now`. A tick that is handled late
moves the schedule. -/
def ticked (s : Sweeper) (now : Nat) : Sweeper :=
  { s with due := (if s.due + lateness.nanos < now then now else s.due) + s.interval.nanos }

theorem lt_due_ticked (s : Sweeper) (now : Nat) : s.due < (s.ticked now).due := by
  have hpos := s.interval_pos
  unfold ticked
  split
  · simp only
    omega
  · simp only
    omega

/-- The next tick is due within one interval of the handling. -/
theorem due_ticked_le (s : Sweeper) {now : Nat} (hdue : s.due ≤ now) :
    (s.ticked now).due ≤ now + s.interval.nanos := by
  unfold ticked
  split
  · exact Nat.le_refl _
  · exact Nat.add_le_add_right hdue _

theorem handled_of_lt (s : Sweeper) {now : Nat} (hlt : now < s.due) : s.handled now = s :=
  if_pos hlt

/-- All ticks that are due are handled by handling one and then the others. -/
theorem handled_ticked (s : Sweeper) {now : Nat} (hdue : s.due ≤ now) :
    (s.ticked now).handled now = s.handled now := by
  have hpos := s.interval_pos
  have hnot : ¬ now < s.due := Nat.not_lt.mpr hdue
  by_cases hlate : s.due + lateness.nanos < now
  · -- The schedule has moved beyond the present, so nothing else is due.
    have hticked : s.ticked now = { s with due := now + s.interval.nanos } := by
      rw [ticked, if_pos hlate]
    rw [handled_of_lt _ (by rw [hticked]; exact Nat.lt_add_of_pos_right hpos), hticked, handled,
      if_neg hnot, if_pos hlate]
  · have hticked : s.ticked now = { s with due := s.due + s.interval.nanos } := by
      rw [ticked, if_neg hlate]
    have hall : s.handled now
        = { s with due := s.due + ((now - s.due) / s.interval.nanos + 1) * s.interval.nanos } := by
      rw [handled, if_neg hnot, if_neg hlate]
    rw [hticked, hall]
    by_cases hnext : now < s.due + s.interval.nanos
    · have hzero : (now - s.due) / s.interval.nanos = 0 := Nat.div_eq_of_lt (by omega)
      rw [handled_of_lt _ hnext, hzero, Nat.zero_add, Nat.one_mul]
    · -- One tick fewer is left, and it is no later than the one before.
      have hkept : ¬ s.due + s.interval.nanos + lateness.nanos < now := by omega
      have hdiv : (now - s.due) / s.interval.nanos
          = (now - (s.due + s.interval.nanos)) / s.interval.nanos + 1 := by
        rw [← Nat.add_div_right _ hpos]
        congr 1
        omega
      simp only [handled, if_neg hnext, if_neg hkept, hdiv, Sweeper.mk.injEq, true_and, Nat.add_mul]
      omega

end Sweeper

/-! ## Tasks -/

/-- A running sweep task: its schedule, and when it handled its last tick or else was started. -/
structure Task where
  id : Nat
  schedule : Sweeper
  last : Nat

/-- A memory store with the sweep tasks that run, and the one that it can stop. -/
structure Staffed where
  store : Store := {}
  tasks : List Task := []
  handle : Option Nat := none
  started : Nat := 0

namespace Staffed

/-- One step of a client, of the clock or of a task. -/
inductive Step
  | connect
  | disconnect
  | call (c : Call)
  | sweep
  /-- The clock moves, and no tick is handled yet. -/
  | drift (d : Duration)
  /-- The `i`-th task handles one tick, if one is due. -/
  | tick (i : Nat)

/-- The tasks that are left when the one that the handle is on has ended. -/
def others (s : Staffed) : List Task := s.tasks.filter fun t => s.handle ≠ some t.id

/-- One tick of a task, which sweeps. -/
def tick (s : Staffed) (i : Nat) : Staffed :=
  match s.tasks[i]? with
  | none => s
  | some t =>
      if t.schedule.due ≤ s.store.now then
        let t := { t with schedule := t.schedule.ticked s.store.now, last := s.store.now }
        let sweeper := if s.handle = some t.id then some t.schedule else s.store.sweeper
        let leases := (s.store.sweep).2.leases
        { s with store := { s.store with leases, sweeper }, tasks := s.tasks.set i t }
      else s

/-- One step. To connect includes the first turn of the task that is started. A task also ends when
the handle on it is lost, so a new task takes the place of the one that the handle was on. -/
def step (s : Staffed) : Step → Staffed
  | .connect =>
      match s.store.connect with
      | (.error _, store) => { s with store }
      | (.ok (), store) =>
          match store.sweeper with
          | none => { s with store }
          | some schedule =>
              { store
                tasks := s.others ++ [⟨s.started, schedule, store.now⟩]
                handle := some s.started
                started := s.started + 1 }
  | .disconnect =>
      match s.store.disconnect with
      | (.error _, store) => { s with store }
      | (.ok (), store) => { s with store, tasks := s.others, handle := none }
  | .call c => { s with store := (s.store.perform c).2 }
  | .sweep => { s with store := (s.store.sweep).2 }
  | .drift d => { s with store := { s.store with now := s.store.now + d.nanos } }
  | .tick i => s.tick i

/-- One step after the other. -/
def run (s : Staffed) (steps : List Step) : Staffed := steps.foldl step s

theorem run_append (s : Staffed) (steps more : List Step) :
    s.run (steps ++ more) = (s.run steps).run more :=
  List.foldl_append

end Staffed

/-! ## What calls leave in the table -/

/-- A call changes nothing but the leases, and these only while connected. What it adds expires
later. -/
theorem Store.exists_perform_leases (s : Store) (c : Call) :
    ∃ leases, (s.perform c).2 = { s with leases } ∧ (s.status ≠ .connected → leases = s.leases) ∧
      ∀ key expiry, leases.expiry? key = some expiry →
        s.leases.expiry? key = some expiry ∨ s.now < expiry := by
  cases c with
  | tryAcquire key ttl =>
      rcases s.tryAcquire_cases key ttl with ⟨e, he⟩ | ⟨hconn, hkey, hacc⟩
      · exact ⟨s.leases, congrArg Prod.snd he, fun _ => rfl, fun _ _ => Or.inl⟩
      · cases hlive : s.leases.isLive s.now key with
        | true =>
            have hres := Store.tryAcquire_of_isLive hconn hkey hacc hlive
            exact ⟨s.leases, congrArg Prod.snd hres, fun _ => rfl, fun _ _ => Or.inl⟩
        | false =>
            have hres := Store.tryAcquire_of_not_isLive hconn hkey hacc hlive
            refine ⟨_, congrArg Prod.snd hres, fun hnot => absurd hconn hnot, ?_⟩
            intro k expiry hk
            rw [Leases.expiry?_insert] at hk
            split at hk
            · cases hk
              exact Or.inr (Nat.lt_add_of_pos_right hacc.pos)
            · exact Or.inl hk
  | release key =>
      rcases s.release_cases key with ⟨e, he⟩ | ⟨hconn, hkey⟩
      · exact ⟨s.leases, congrArg Prod.snd he, fun _ => rfl, fun _ _ => Or.inl⟩
      · have hres := Store.release_of_connected hconn hkey
        refine ⟨_, congrArg Prod.snd hres, fun hnot => absurd hconn hnot, ?_⟩
        intro k expiry hk
        rw [Leases.expiry?_erase] at hk
        split at hk
        · cases hk
        · exact Or.inl hk
  | «exists» key => exact ⟨s.leases, rfl, fun _ => rfl, fun _ _ => Or.inl⟩
  | check probe => exact ⟨s.leases, rfl, fun _ => rfl, fun _ _ => Or.inl⟩

/-- A sweep keeps the leases that have not expired, and no others. -/
theorem Leases.expiry?_sweep_eq_some {ls : Leases} {now : Nat} {key : String} {expiry : Nat} :
    (ls.sweep now).expiry? key = some expiry ↔ ls.expiry? key = some expiry ∧ now < expiry := by
  rw [Leases.expiry?_sweep, Option.filter_eq_some_iff, decide_eq_true_eq]

/-! ## The invariant -/

/-- The task of a connected store: the store has its handle on it, its next tick is due within an
interval of the last, and no entry in the table had expired by the last. -/
structure OnDuty (interval : Duration) (s : Staffed) (t : Task) : Prop where
  tasks : s.tasks = [t]
  handle : s.handle = some t.id
  sweeper : s.store.sweeper = some t.schedule
  period : t.schedule.interval = interval
  last_le : t.last ≤ s.store.now
  due_le : t.schedule.due ≤ t.last + interval.nanos
  fresh : ∀ key expiry, s.store.leases.expiry? key = some expiry → t.last < expiry

/-- A store that is not connected has no task, and nothing in its table. -/
structure OffDuty (s : Staffed) : Prop where
  tasks : s.tasks = []
  handle : s.handle = none
  sweeper : s.store.sweeper = none
  leases : s.store.leases = {}

/-- The tasks of a store that sweeps. -/
structure Attended (interval : Duration) (s : Staffed) : Prop where
  sweeps : s.store.sweepInterval = some interval
  busy : s.store.status = .connected → ∃ t, OnDuty interval s t
  idle : s.store.status ≠ .connected → OffDuty s

section

variable {interval : Duration} {s : Staffed} {t : Task}

theorem OnDuty.others (h : OnDuty interval s t) : s.others = [] := by
  simp [Staffed.others, h.tasks, h.handle]

theorem OffDuty.others (h : OffDuty s) : s.others = [] := by
  simp [Staffed.others, h.tasks]

/-- While no tick comes the task stays as it is. -/
theorem OnDuty.later (h : OnDuty interval s t) {store : Store} (hnow : s.store.now ≤ store.now)
    (hsweeper : store.sweeper = s.store.sweeper)
    (hleases : ∀ key expiry, store.leases.expiry? key = some expiry →
      s.store.leases.expiry? key = some expiry ∨ s.store.now < expiry) :
    OnDuty interval { s with store } t := by
  refine ⟨h.tasks, h.handle, hsweeper.trans h.sweeper, h.period, Nat.le_trans h.last_le hnow,
    h.due_le, fun key expiry hexp => ?_⟩
  rcases hleases key expiry hexp with hold | hlt
  · exact h.fresh key expiry hold
  · exact Nat.lt_of_le_of_lt h.last_le hlt

theorem OffDuty.later (h : OffDuty s) {store : Store} (hsweeper : store.sweeper = s.store.sweeper)
    (hleases : store.leases = s.store.leases) : OffDuty { s with store } :=
  ⟨h.tasks, h.handle, hsweeper.trans h.sweeper, hleases.trans h.leases⟩

theorem Attended.later (h : Attended interval s) {store : Store}
    (hstatus : store.status = s.store.status)
    (hinterval : store.sweepInterval = s.store.sweepInterval) (hnow : s.store.now ≤ store.now)
    (hsweeper : store.sweeper = s.store.sweeper)
    (hidle : s.store.status ≠ .connected → store.leases = s.store.leases)
    (hleases : ∀ key expiry, store.leases.expiry? key = some expiry →
      s.store.leases.expiry? key = some expiry ∨ s.store.now < expiry) :
    Attended interval { s with store } := by
  refine ⟨hinterval.trans h.sweeps, fun hconn => ?_, fun hnot => ?_⟩
  · obtain ⟨t, ht⟩ := h.busy (hstatus ▸ hconn)
    exact ⟨t, ht.later hnow hsweeper hleases⟩
  · have hnot' : s.store.status ≠ .connected := hstatus ▸ hnot
    exact (h.idle hnot').later hsweeper (hidle hnot')

/-! ## Steps -/

theorem Attended.connect (hpos : 0 < interval.nanos) (h : Attended interval s) :
    Attended interval (s.step .connect) := by
  simp only [Staffed.step]
  rcases s.store.connect_cases with ⟨hres, -⟩ | ⟨hnot, hres⟩
  · rw [hres]
    exact h
  · have hoff := h.idle hnot
    have hstart : s.store.sweepInterval.bind (Sweeper.start? · s.store.now)
        = some ⟨interval, s.store.now + interval.nanos, hpos⟩ := by
      simp [h.sweeps, Sweeper.start?, hpos]
    rw [hres, hstart]
    let t : Task := ⟨s.started, ⟨interval, s.store.now + interval.nanos, hpos⟩, s.store.now⟩
    refine ⟨h.sweeps, fun _ => ⟨t, ?_, rfl, rfl, rfl, Nat.le_refl _, Nat.le_refl _, ?_⟩,
      fun hnot' => absurd rfl hnot'⟩
    · rw [hoff.others]
      rfl
    · -- The table of a new session is empty.
      intro key expiry hexp
      simp [hoff.leases] at hexp

theorem Attended.disconnect (h : Attended interval s) : Attended interval (s.step .disconnect) := by
  simp only [Staffed.step]
  rcases s.store.disconnect_cases with ⟨hres, -⟩ | ⟨hconn, hres⟩
  · rw [hres]
    exact h
  · obtain ⟨t, ht⟩ := h.busy hconn
    rw [hres]
    refine ⟨h.sweeps, fun hconn' => ?_, fun _ => ⟨ht.others, rfl, rfl, rfl⟩⟩
    cases hconn'

/-- A tick of the task on duty. -/
theorem OnDuty.tick (h : OnDuty interval s t) (hdue : t.schedule.due ≤ s.store.now) :
    s.tick 0 =
      { s with
        store :=
          { s.store with
            leases := s.store.leases.sweep s.store.now
            sweeper := some (t.schedule.ticked s.store.now) }
        tasks := [{ t with schedule := t.schedule.ticked s.store.now, last := s.store.now }] } := by
  simp [Staffed.tick, h.tasks, h.handle, hdue, Store.sweep]

theorem OnDuty.onDuty_tick (h : OnDuty interval s t) (hdue : t.schedule.due ≤ s.store.now) :
    OnDuty interval (s.tick 0)
      { t with schedule := t.schedule.ticked s.store.now, last := s.store.now } := by
  rw [h.tick hdue]
  refine ⟨rfl, h.handle, rfl, h.period, Nat.le_refl _, ?_, fun key expiry hexp => ?_⟩
  · rw [← h.period]
    exact t.schedule.due_ticked_le hdue
  · exact (Leases.expiry?_sweep_eq_some.mp hexp).2

/-- There is no other task that could tick. -/
theorem OnDuty.tick_eq_self (h : OnDuty interval s t) {i : Nat}
    (hnot : i ≠ 0 ∨ s.store.now < t.schedule.due) : s.tick i = s := by
  unfold Staffed.tick
  rw [h.tasks]
  cases i with
  | zero =>
      rcases hnot with hne | hlt
      · exact absurd rfl hne
      · simp only [List.getElem?_cons_zero, if_neg (Nat.not_le.mpr hlt)]
  | succ i => rfl

theorem OffDuty.tick_eq_self (h : OffDuty s) (i : Nat) : s.tick i = s := by
  simp [Staffed.tick, h.tasks]

theorem Attended.tick (h : Attended interval s) (i : Nat) : Attended interval (s.tick i) := by
  by_cases hconn : s.store.status = .connected
  · obtain ⟨t, ht⟩ := h.busy hconn
    by_cases hnow : i = 0 ∧ t.schedule.due ≤ s.store.now
    · obtain ⟨rfl, hdue⟩ := hnow
      have hsame : (s.tick 0).store.status = s.store.status ∧
          (s.tick 0).store.sweepInterval = s.store.sweepInterval := by
        rw [ht.tick hdue]
        exact ⟨rfl, rfl⟩
      exact ⟨hsame.2.trans h.sweeps, fun _ => ⟨_, ht.onDuty_tick hdue⟩,
        fun hnot => absurd (hsame.1.trans hconn) hnot⟩
    · rw [ht.tick_eq_self (by omega)]
      exact h
  · rw [(h.idle hconn).tick_eq_self]
    exact h

/-- Every step keeps the invariant. -/
theorem Attended.step (hpos : 0 < interval.nanos) (h : Attended interval s) (e : Staffed.Step) :
    Attended interval (s.step e) := by
  cases e with
  | connect => exact h.connect hpos
  | disconnect => exact h.disconnect
  | call c =>
      obtain ⟨leases, hres, hidle, hadded⟩ := s.store.exists_perform_leases c
      simp only [Staffed.step, hres]
      exact h.later rfl rfl (Nat.le_refl _) rfl hidle hadded
  | sweep =>
      refine h.later rfl rfl (Nat.le_refl _) rfl (fun hnot => ?_) fun key expiry hexp => ?_
      · show s.store.leases.sweep s.store.now = s.store.leases
        rw [(h.idle hnot).leases]
        rfl
      · exact Or.inl (Leases.expiry?_sweep_eq_some.mp hexp).1
  | drift d => exact h.later rfl rfl (Nat.le_add_right _ _) rfl (fun _ => rfl) fun _ _ => Or.inl
  | tick i => exact h.tick i

/-- Every run keeps the invariant. -/
theorem Attended.run (hpos : 0 < interval.nanos) (h : Attended interval s)
    (steps : List Staffed.Step) : Attended interval (s.run steps) := by
  induction steps generalizing s with
  | nil => exact h
  | cons e rest ih => exact ih (h.step hpos e)

end

end KeyLease.Memory
