import KeyLease.Proofs.Memory.Staffed

set_option autoImplicit false

/-!
# How much garbage a memory store holds

An expired lease stays in the table until a sweep takes it. At a settled instant, when no tick is
due, less than one interval has passed since the last sweep, so whatever is in the table has been
garbage for less than that. `sweeps_bound_garbage` says so of all steps of a store and its task.

The store's own operations are such steps (`Attended.exists_run`): a jump of the clock is a move and
then as many ticks as are due, a wait is a move to each instant at which a timer goes off. A jump
ends settled, and so does a wait that ends at a whole millisecond; between two milliseconds a tick
may be due whose timer has not gone off yet.
-/

namespace KeyLease.Memory

/-! ## Settled instants -/

/-- No running task has a tick to handle. -/
def Staffed.Settled (s : Staffed) : Prop := ∀ t ∈ s.tasks, s.store.now < t.schedule.due

/-- The sweep has no tick to handle. -/
def Store.Settled (s : Store) : Prop := ∀ sweeper, s.sweeper = some sweeper → s.now < sweeper.due

/-- At a whole millisecond the timers of all ticks that are due have gone off. -/
theorem Sweeper.wakes_le_of_due_le (s : Sweeper) {t : Nat} (hwhole : 1000000 ∣ t)
    (hdue : s.due ≤ t) : s.wakes ≤ t := by
  simp only [wakes, Duration.timerMillis]
  omega

namespace Store

theorem tick_of_settled {s : Store} (h : s.Settled) : s.tick = s := by
  unfold tick
  split
  · rfl
  · rename_i sweeper hs
    exact if_neg (Nat.not_le.mpr (h sweeper hs))

theorem settled_tick (s : Store) : s.tick.Settled := by
  cases hs : s.sweeper with
  | none =>
      intro sweeper hsome
      simp [tick, hs] at hsome
  | some sweeper =>
      by_cases hdue : sweeper.due ≤ s.now
      · rw [tick_of_due hs hdue]
        rintro _ ⟨⟩
        exact sweeper.lt_due_handled s.now
      · have hsettled : s.Settled := by
          intro sweeper' hs'
          cases hs.symm.trans hs'
          exact Nat.not_le.mp hdue
        rwa [tick_of_settled hsettled]

/-- After a jump of the clock all that was due has been handled. -/
theorem settled_jump (s : Store) (d : Duration) : (s.jump d).Settled := settled_tick _

/-- After a wait no timer has gone off that is not handled. -/
theorem lt_wakes_of_sleepUntil (s : Store) (target : Nat) :
    ∀ sweeper, (s.sleepUntil target).sweeper = some sweeper → target < sweeper.wakes := by
  fun_induction Store.sleepUntil target s with
  | case1 s hs =>
      intro sweeper hsome
      cases hs.symm.trans hsome
  | case2 s sweeper hs hle now ih => exact ih
  | case3 s sweeper hs hgt =>
      intro sweeper' hsome
      cases hs.symm.trans hsome
      exact Nat.not_le.mp hgt

/-- After a wait that ends at a whole millisecond all that was due has been handled. -/
theorem settled_pass (s : Store) {d : Duration} (hwhole : 1000000 ∣ (s.pass d).now) :
    (s.pass d).Settled := by
  intro sweeper hsome
  have hnow : (s.pass d).now = s.now + d.nanos := by
    rw [pass, sleepUntil_now]
    omega
  have hwakes := lt_wakes_of_sleepUntil s _ sweeper hsome
  rw [hnow] at hwhole ⊢
  refine Nat.lt_of_not_le fun hdue => ?_
  have hle := sweeper.wakes_le_of_due_le hwhole hdue
  omega

end Store

/-! ## The operations of the store as steps -/

section

variable {interval : Duration} {s : Staffed} {t : Task}

theorem Attended.settled_iff (h : Attended interval s) : s.Settled ↔ s.store.Settled := by
  by_cases hconn : s.store.status = .connected
  · obtain ⟨t, ht⟩ := h.busy hconn
    simp [Staffed.Settled, Store.Settled, ht.tasks, ht.sweeper]
  · have hoff := h.idle hconn
    simp [Staffed.Settled, Store.Settled, hoff.tasks, hoff.sweeper]

/-- One tick of the task leaves the store the ticks that are still to be handled. -/
theorem OnDuty.tick_tick (h : OnDuty interval s t) (hdue : t.schedule.due ≤ s.store.now) :
    (s.tick 0).store.tick = s.store.tick := by
  have hticked := t.schedule.handled_ticked hdue
  rw [h.tick hdue, Store.tick_of_due h.sweeper hdue]
  by_cases hmore : (t.schedule.ticked s.store.now).due ≤ s.store.now
  · -- Another tick is due at once; a second sweep at one instant finds nothing.
    have hsweep := Leases.sweep_sweep s.store.leases (Nat.le_refl s.store.now)
    have hagain := Store.tick_of_due (s := { s.store with
      leases := s.store.leases.sweep s.store.now
      sweeper := some (t.schedule.ticked s.store.now) }) rfl hmore
    rw [hagain, hsweep, hticked]
  · have hlt := Nat.not_le.mp hmore
    rw [← hticked, Sweeper.handled_of_lt _ hlt]
    refine Store.tick_of_settled ?_
    rintro _ ⟨⟩
    exact hlt

/-- All ticks that are due, one after the other. -/
theorem OnDuty.exists_ticks (h : OnDuty interval s t) :
    ∃ n, (s.run (List.replicate n (.tick 0))).store = s.store.tick := by
  -- The induction is on how far the next tick lies behind the present.
  induction hn : s.store.now + 1 - t.schedule.due using Nat.strongRecOn generalizing s t with
  | ind n ih =>
      by_cases hdue : t.schedule.due ≤ s.store.now
      · have hnow : (s.tick 0).store.now = s.store.now := by
          rw [h.tick hdue]
        have hlt := t.schedule.lt_due_ticked s.store.now
        have hcloser : (s.tick 0).store.now + 1 - (t.schedule.ticked s.store.now).due < n := by
          omega
        obtain ⟨k, hk⟩ := ih _ hcloser (h.onDuty_tick hdue) rfl
        exact ⟨k + 1, hk.trans (h.tick_tick hdue)⟩
      · refine ⟨0, (Store.tick_of_settled fun sweeper hs => ?_).symm⟩
        cases h.sweeper.symm.trans hs
        exact Nat.not_le.mp hdue

theorem Attended.exists_ticks (h : Attended interval s) :
    ∃ n, (s.run (List.replicate n (.tick 0))).store = s.store.tick := by
  by_cases hconn : s.store.status = .connected
  · obtain ⟨t, ht⟩ := h.busy hconn
    exact ht.exists_ticks
  · have hnone := (h.idle hconn).sweeper
    exact ⟨0, (Store.tick_of_settled fun sweeper hs => absurd (hnone.symm.trans hs) nofun).symm⟩

/-- The clock moves to an instant, and the ticks that are due by then are handled. -/
theorem Attended.exists_drift (hpos : 0 < interval.nanos) (h : Attended interval s) {now : Nat}
    (hle : s.store.now ≤ now) :
    ∃ steps, (s.run steps).store = ({ s.store with now } : Store).tick := by
  have hdrift : (s.step (.drift ⟨now - s.store.now⟩)).store = { s.store with now } := by
    have hnow : s.store.now + (now - s.store.now) = now := by omega
    simp only [Staffed.step, hnow]
  obtain ⟨n, hn⟩ := (h.step hpos (.drift ⟨now - s.store.now⟩)).exists_ticks
  exact ⟨.drift ⟨now - s.store.now⟩ :: List.replicate n (.tick 0), hn.trans (by rw [hdrift])⟩

/-- A wait is a move to each instant at which a timer goes off, and a last one to its end. -/
theorem Attended.exists_sleep (hpos : 0 < interval.nanos) (store : Store) (target : Nat) :
    ∀ {s}, Attended interval s → s.store = store →
      ∃ steps, (s.run steps).store = store.sleepUntil target := by
  fun_induction Store.sleepUntil target store with
  | case1 store hs =>
      intro s h hstore
      refine ⟨[.drift ⟨target - store.now⟩], ?_⟩
      have hnow : store.now + (target - store.now) = max store.now target := by omega
      simp only [Staffed.run, List.foldl_cons, List.foldl_nil, Staffed.step, hstore, hnow]
  | case2 store sweeper hs hle now =>
      rename_i ih
      intro s h hstore
      have hnow : store.now ≤ now := Nat.le_max_left _ _
      have hdue : sweeper.due ≤ now :=
        Nat.le_trans sweeper.due_le_wakes (Nat.le_max_right _ _)
      obtain ⟨steps, hsteps⟩ := h.exists_drift hpos (hstore ▸ hnow)
      have hticked : ({ store with now } : Store).tick
          = { store with
              now, leases := store.leases.sweep now, sweeper := some (sweeper.handled now) } :=
        Store.tick_of_due hs hdue
      rw [hstore, hticked] at hsteps
      obtain ⟨more, hmore⟩ := ih (h.run hpos steps) hsteps
      exact ⟨steps ++ more, by rw [Staffed.run_append, hmore]⟩
  | case3 store sweeper hs hgt =>
      intro s h hstore
      refine ⟨[.drift ⟨target - store.now⟩], ?_⟩
      have hnow : store.now + (target - store.now) = max store.now target := by omega
      simp only [Staffed.run, List.foldl_cons, List.foldl_nil, Staffed.step, hstore, hnow]

theorem Staffed.step_connect_store (s : Staffed) :
    (s.step .connect).store = s.store.connect.2 := by
  simp only [step]
  split
  · rename_i hres
    rw [hres]
  · rename_i hres
    rw [hres]
    split <;> rfl

theorem Staffed.step_disconnect_store (s : Staffed) :
    (s.step .disconnect).store = s.store.disconnect.2 := by
  simp only [step]
  split <;> (rename_i hres; rw [hres])

theorem Store.run_snoc (s : Store) (actions : List Action) (a : Action) :
    (s.run (actions ++ [a])).2 = ((s.run actions).2.act a).2 := by
  induction actions generalizing s with
  | nil => rfl
  | cons b rest ih => exact ih (s.act b).2

/-- Every action of the store comes of some steps. -/
theorem Attended.exists_act (hpos : 0 < interval.nanos) (h : Attended interval s) (a : Action) :
    ∃ steps, (s.run steps).store = (s.store.act a).2 := by
  cases a with
  | connect => exact ⟨[.connect], s.step_connect_store⟩
  | disconnect => exact ⟨[.disconnect], s.step_disconnect_store⟩
  | call c => exact ⟨[.call c], rfl⟩
  | sweep => exact ⟨[.sweep], rfl⟩
  | tick =>
      obtain ⟨n, hn⟩ := h.exists_ticks
      exact ⟨_, hn⟩
  | drift d => exact ⟨[.drift d], rfl⟩
  | jump d => exact h.exists_drift hpos (Nat.le_add_right _ _)
  | pass d => exact Attended.exists_sleep hpos s.store _ h rfl

/-- Every run of the store comes of some steps. -/
theorem Attended.exists_run (hpos : 0 < interval.nanos) (h : Attended interval s)
    (actions : List Action) : ∃ steps, (s.run steps).store = (s.store.run actions).2 := by
  induction actions generalizing s with
  | nil => exact ⟨[], rfl⟩
  | cons a rest ih =>
      obtain ⟨steps, hsteps⟩ := h.exists_act hpos a
      obtain ⟨more, hmore⟩ := ih (h.run hpos steps)
      refine ⟨steps ++ more, ?_⟩
      rw [Staffed.run_append, hmore, hsteps]
      rfl

/-! ## The bound -/

/-- At a settled instant less than an interval has passed since the last tick. -/
theorem OnDuty.now_lt (h : OnDuty interval s t) (hset : s.Settled) :
    s.store.now < t.last + interval.nanos := by
  have hlt := hset t (by simp [h.tasks])
  have hle := h.due_le
  omega

/-- What is in the table had not expired by the last tick. -/
theorem OnDuty.now_lt_expiry (h : OnDuty interval s t) (hset : s.Settled) {key : String}
    {expiry : Nat} (hexp : s.store.leases.expiry? key = some expiry) :
    s.store.now < expiry + interval.nanos := by
  have hlt := h.now_lt hset
  have hfresh := h.fresh key expiry hexp
  omega

end

/-- A tick takes nothing that has not expired. -/
theorem Staffed.expiry?_tick (s : Staffed) (i : Nat) {key : String} {expiry : Nat}
    (hexp : s.store.leases.expiry? key = some expiry) (hlt : s.store.now < expiry) :
    (s.tick i).store.leases.expiry? key = some expiry := by
  unfold tick
  split
  · exact hexp
  · split
    · exact Leases.expiry?_sweep_eq_some.mpr ⟨hexp, hlt⟩
    · exact hexp

/-- A store that sweeps so often, before its first session. -/
def Staffed.fresh (interval : Duration) (now clockEnd : Nat) : Staffed where
  store := { now, clockEnd, sweepInterval := some interval }

theorem attended_fresh (interval : Duration) (now clockEnd : Nat) :
    Attended interval (.fresh interval now clockEnd) :=
  ⟨rfl, fun hconn => absurd hconn nofun, fun _ => ⟨rfl, rfl, rfl, rfl⟩⟩

/-- **The sweep bounds the garbage.** Take a store that sweeps every `i` milliseconds, and any steps
of its clients, its clock and its tasks, over any number of sessions. While it is connected one task
runs; at a settled instant less than an interval has passed since the last tick of that task, or
since it was started, and every entry in the table expires after the present less an interval. While
it is not connected no task runs. No tick takes an entry that expires after the tick. And every run
of the store comes of such steps, with a settled instant after every jump of the clock and after
every wait that ends at a whole millisecond. -/
theorem sweeps_bound_garbage {i : Nat} (hi : 1 ≤ i) (now clockEnd : Nat) :
    (∀ steps, let s := (Staffed.fresh (.ofMillis i) now clockEnd).run steps
      (s.store.status = .connected → ∃ t, s.tasks = [t] ∧
        (s.Settled → s.store.now < t.last + (Duration.ofMillis i).nanos ∧
          ∀ key expiry, s.store.leases.expiry? key = some expiry →
            s.store.now < expiry + (Duration.ofMillis i).nanos)) ∧
      (s.store.status ≠ .connected → s.tasks = []) ∧
      ∀ n key expiry, s.store.leases.expiry? key = some expiry → s.store.now < expiry →
        (s.step (.tick n)).store.leases.expiry? key = some expiry) ∧
    ∀ actions, ∃ steps, let s := (Staffed.fresh (.ofMillis i) now clockEnd).run steps
      s.store = ((Staffed.fresh (.ofMillis i) now clockEnd).store.run actions).2 ∧
      ∀ before d, actions = before ++ [.jump d] ∨
        actions = before ++ [.pass d] ∧ 1000000 ∣ s.store.now → s.Settled := by
  have hpos : 0 < (Duration.ofMillis i).nanos := Nat.mul_pos hi (by decide)
  have hstart := attended_fresh (.ofMillis i) now clockEnd
  constructor
  · intro steps s
    have h : Attended (.ofMillis i) s := hstart.run hpos steps
    refine ⟨fun hconn => ?_, fun hnot => (h.idle hnot).tasks, ?_⟩
    · obtain ⟨t, ht⟩ := h.busy hconn
      exact ⟨t, ht.tasks, fun hset => ⟨ht.now_lt hset, fun _ _ => ht.now_lt_expiry hset⟩⟩
    · intro n key expiry hexp hlt
      exact s.expiry?_tick n hexp hlt
  · intro actions
    obtain ⟨steps, hsteps⟩ := hstart.exists_run hpos actions
    refine ⟨steps, hsteps, fun before d hlast => ?_⟩
    rw [(hstart.run hpos steps).settled_iff]
    rw [hsteps]
    rcases hlast with rfl | ⟨rfl, hwhole⟩
    · rw [Store.run_snoc]
      exact Store.settled_jump _ d
    · rw [hsteps, Store.run_snoc] at hwhole
      rw [Store.run_snoc]
      exact Store.settled_pass _ hwhole

/-- The bound in a second session, after a tick that was handled late and took an expired entry. -/
theorem sweeps_bound_garbage_reconnected :
    let steps : List Staffed.Step :=
      [.connect, .call (.tryAcquire "job" (.ofMillis 5)), .drift (.ofMillis 17), .tick 0,
        .disconnect, .connect, .call (.tryAcquire "job" (.ofMillis 5)), .drift (.ofMillis 9)]
    let s := (Staffed.fresh (.ofMillis 10) 0 lastInstant).run steps
    1 ≤ 10 ∧ s.store.status = .connected ∧ s.Settled ∧ ∃ t, s.tasks = [t] ∧
      s.store.now < t.last + (Duration.ofMillis 10).nanos ∧ ∀ key expiry,
        s.store.leases.expiry? key = some expiry →
          s.store.now < expiry + (Duration.ofMillis 10).nanos := by
  intro steps s
  have hconn : s.store.status = .connected := by decide +kernel
  have hset : s.Settled := by
    unfold Staffed.Settled
    decide +kernel
  have hbound := ((sweeps_bound_garbage (show 1 ≤ 10 by decide) 0 lastInstant).1 steps).1
  clear_value steps
  obtain ⟨t, ht, hrest⟩ := hbound hconn
  exact ⟨by decide, hconn, hset, t, ht, hrest hset⟩

end KeyLease.Memory
