import KeyLease.Proofs.Lifecycle.Sequence
import KeyLease.Proofs.Memory.Shared

set_option autoImplicit false

/-!
# When leases end with their session

Disconnecting is to drop every lease. It does so only for those who let it: a disconnect that is
dropped after it has shown that the session is over, and before it has dropped the leases, leaves
them all behind; and an attempt to acquire that was let through in a session sets its lease even if
the session has been closed and cleared meanwhile. The next session then finds leases that it has
not granted.

`entries_end_with_session` says that nothing else can go wrong: a run in which neither happens
(`Orderly`) has no lease outside a session at any moment, and a run in which either happens has one
right after it.
-/

namespace KeyLease

/-- After an attempt to acquire there is some lease. -/
theorem Leases.acquire_ne_empty (ls : Leases) (now : Nat) (key : String) (expiry : Nat) :
    (ls.acquire now key expiry).2 ≠ {} := by
  intro hempty
  have hnone : (ls.acquire now key expiry).2.expiry? key = none := by rw [hempty]; rfl
  unfold Leases.acquire at hnone
  split at hnone
  · rename_i hlive
    obtain ⟨expiry', hexp, -⟩ := Leases.isLive_iff.mp hlive
    exact absurd (hexp.symm.trans hnone) nofun
  · rw [Leases.expiry?_insert, if_pos rfl] at hnone
    cases hnone

namespace Memory

open Lifecycle (Machine Request Transition Turn)

/-! ## Lifecycles -/

/-- Transitions go by the status that is shown, and while one of them is at work it is not
`connected`. -/
structure Coherent (m : Machine) : Prop where
  guarded : m.guarded = m.status
  busy : ∀ t, m.turn = some t → m.status ≠ .connected

namespace Coherent

variable {m : Machine}

theorem take (hc : Coherent m) : Coherent m.take := by
  unfold Machine.take
  split
  · rename_i r rest hfree hfront
    split
    · exact ⟨hc.guarded, hc.busy⟩
    · rename_i hruns
      rw [hc.guarded] at hruns
      refine ⟨?_, fun t _ => ?_⟩
      · simp [hc.guarded]
      · have hrun := Machine.refusal?_eq_none hruns
        simp only [Machine.begin_status]
        cases htrans : r.transition with
        | connect => simpa [htrans, Transition.runs, Transition.shown] using hrun
        | disconnect => simp [Transition.shown]
  · exact hc

theorem complete (hc : Coherent m) : Coherent m.complete := by
  unfold Machine.complete
  split
  · refine ⟨?_, nofun⟩
    unfold Machine.finish
    split
    · rfl
    · exact hc.guarded
  · exact hc

theorem cancel (hc : Coherent m) (task : Nat) : Coherent (m.cancel task) := by
  unfold Machine.cancel Machine.dropCheck
  split
  · exact ⟨hc.guarded, nofun⟩
  · split
    · exact ⟨hc.guarded, hc.busy⟩
    · split
      · exact ⟨hc.guarded, hc.busy⟩
      · exact hc

end Coherent

/-- The second half of an attempt to acquire fails and changes nothing, or leaves some lease. -/
theorem Store.enter_cases (s : Store) (key : String) (ttl : Duration) :
    (∃ e, s.enter key ttl = (.error e, s)) ∨
      ∃ b leases, s.enter key ttl = (.ok b, { s with leases }) ∧ leases ≠ {} := by
  rcases { s with status := .connected }.tryAcquire_cases key ttl with
    ⟨e, he⟩ | ⟨hconn, hkey, haccepts⟩
  · refine Or.inl ⟨e, ?_⟩
    rw [enter, he]
  · have hne := Leases.acquire_ne_empty s.leases s.now key (s.now + ttl.nanos)
    refine Or.inr ⟨(s.leases.acquire s.now key (s.now + ttl.nanos)).1, _, ?_, hne⟩
    rw [enter, tryAcquire_of_accepts hconn hkey haccepts]

namespace Shared

/-! ## What outlives a session -/

/-- A disconnect has the turn that has yet to drop the leases. -/
def Closing (s : Shared) : Prop :=
  ∃ t, s.lifecycle.turn = some t ∧ t.request.transition = .disconnect ∧ s.stage ≠ .done

/-- There is a lease though no session is open, and nobody is about to drop it. -/
def Outlived (s : Shared) : Prop :=
  s.lifecycle.status ≠ .connected ∧ ¬ s.Closing ∧ s.store.leases ≠ {}

/-- The step does not drop a disconnect that has yet to drop some leases, and it does not set a
lease outside a session when nobody is about to drop it. -/
def Orderly (s : Shared) : Step → Prop
  | .drop task => ∀ t, s.lifecycle.turn = some t → t.request.task = task →
      t.request.transition = .disconnect → s.stage.waits = true → s.store.leases = {}
  | .enter i => ∀ key ttl, s.admitted[i]? = some (key, ttl) →
      s.lifecycle.status = .connected ∨ s.Closing ∨ ∃ e, (s.store.enter key ttl).1 = .error e
  | _ => True

theorem leases_eq_empty {s : Shared} (h : ¬ s.Outlived) (hstatus : s.lifecycle.status ≠ .connected)
    (hopen : ¬ s.Closing) : s.store.leases = {} :=
  Decidable.byContradiction fun hne => h ⟨hstatus, hopen, hne⟩

theorem not_outlived_of_empty {s : Shared} (h : s.store.leases = {}) : ¬ s.Outlived :=
  fun hout => hout.2.2 h

theorem not_closing_of_free {s : Shared} (h : s.lifecycle.turn = none) : ¬ s.Closing := by
  rintro ⟨t, ht, -⟩
  exact absurd (h.symm.trans ht) nofun

theorem not_closing_of_connect {s : Shared} {t : Turn} (ht : s.lifecycle.turn = some t)
    (hconn : t.request.transition = .connect) : ¬ s.Closing := by
  rintro ⟨t', ht', hdisc, -⟩
  cases ht.symm.trans ht'
  rw [hconn] at hdisc
  cases hdisc

variable {s : Shared}

/-- Whoever gets a turn leaves nothing behind by that: only a disconnect ends a session, and it has
yet to drop the leases. -/
theorem not_outlived_take (h : ¬ s.Outlived) : ¬ (s.step .take).Outlived := by
  simp only [step]
  cases hfree : s.lifecycle.turn with
  | some t => exact h
  | none =>
      have hempty := fun hstatus => leases_eq_empty h hstatus (not_closing_of_free hfree)
      simp only
      unfold Machine.take
      rw [hfree]
      cases hfront : s.lifecycle.waiting with
      | nil => exact fun hout => hout.2.2 (hempty hout.1)
      | cons r rest =>
          simp only
          split
          · exact fun hout => hout.2.2 (hempty hout.1)
          · intro hout
            cases htrans : r.transition with
            | disconnect =>
                -- It has the turn now and is not done.
                refine hout.2.1 ⟨_, rfl, htrans, ?_⟩
                show Stage.entered ≠ .done
                decide
            | connect =>
                -- Nobody was closing, so there was no lease to begin with.
                have hstatus := hout.1
                simp only [follow, Machine.begin_status, htrans, Transition.shown] at hstatus
                exact hout.2.2 (hempty hstatus)

/-- Nor does a call that goes on: a disconnect returns only when it has dropped the leases. -/
theorem not_outlived_proceed (hc : Coherent s.lifecycle) (h : ¬ s.Outlived) :
    ¬ s.proceed.Outlived := by
  unfold proceed
  split
  · exact h
  · rename_i t ht
    have hbusy := hc.busy t ht
    split
    · -- A connect that starts the sweep; there is no lease while it is at work.
      rename_i hconn _
      have hempty := leases_eq_empty h hbusy (not_closing_of_connect ht hconn)
      exact not_outlived_of_empty hempty
    · -- A disconnect that comes to the sweep, and one that has seen it end: the leases go later.
      rename_i hdisc _
      refine fun hout => hout.2.1 ⟨t, ht, hdisc, ?_⟩
      show (if s.store.sweepInterval.isSome then Stage.stopping else Stage.clearing) ≠ .done
      split <;> exact nofun
    · rename_i hdisc _
      exact fun hout => hout.2.1 ⟨t, ht, hdisc, nofun⟩
    · exact not_outlived_of_empty rfl
    · -- A call that returns. A disconnect returns only after it has dropped the leases.
      rename_i hconn hentered hstopping hclearing
      have hopen : ¬ s.Closing := by
        rintro ⟨t', ht', hdisc, hstage⟩
        cases ht.symm.trans ht'
        cases hst : s.stage with
        | entered => exact hentered hdisc hst
        | stopping => exact hstopping hdisc hst
        | clearing => exact hclearing hdisc hst
        | done => exact hstage hst
      have hempty := leases_eq_empty h hbusy hopen
      exact not_outlived_of_empty hempty

/-- A call that is dropped leaves leases behind exactly if it was to drop them. -/
theorem outlived_drop_iff (hc : Coherent s.lifecycle) (h : ¬ s.Outlived) (task : Nat) :
    ¬ (s.step (.drop task)).Outlived ↔ s.Orderly (.drop task) := by
  simp only [step, Orderly]
  by_cases hturn : s.lifecycle.turn.any (·.request.task = task)
  · obtain ⟨t, ht, htask⟩ := (Option.any_eq_true _ _).mp hturn
    have htask := of_decide_eq_true htask
    have hbusy := hc.busy t ht
    cases hwaits : s.stage.waits with
    | false =>
        -- It does not wait, so it cannot be dropped.
        rw [if_pos ⟨hturn, by simp⟩]
        exact ⟨fun _ _ _ _ _ hwaits' => absurd hwaits' Bool.false_ne_true, fun _ => h⟩
    | true =>
        rw [if_neg (by simp), Machine.cancel, if_pos hturn]
        constructor
        · intro hkept t' ht' _ hdisc _
          -- Nobody has the turn any more, so nobody is about to drop the leases.
          have hopen := not_closing_of_free (s := s.follow
            { s.lifecycle.note task .dropped with turn := none }) rfl
          have hempty := leases_eq_empty hkept hbusy hopen
          exact hempty
        · intro horder
          have hempty : s.store.leases = {} := by
            cases htrans : t.request.transition with
            | connect => exact leases_eq_empty h hbusy (not_closing_of_connect ht htrans)
            | disconnect => exact horder t ht htask htrans rfl
          exact not_outlived_of_empty hempty
  · have hother : ∀ t, s.lifecycle.turn = some t → t.request.task ≠ task := by
      rintro t ht rfl
      exact hturn (by simp [ht])
    rw [if_neg fun hboth => hturn hboth.1, Machine.cancel, if_neg hturn]
    refine ⟨fun _ t ht htask => absurd htask (hother t ht), fun _ => ?_⟩
    unfold Machine.dropCheck
    split
    · exact h
    · split
      · exact h
      · exact h

/-- An attempt to acquire leaves a lease behind exactly if it comes too late. -/
theorem outlived_enter_iff (h : ¬ s.Outlived) (i : Nat) :
    ¬ (s.step (.enter i)).Outlived ↔ s.Orderly (.enter i) := by
  simp only [step, Orderly]
  cases hi : s.admitted[i]? with
  | none =>
      refine ⟨fun _ key ttl hsome => ?_, fun _ => h⟩
      cases hsome
  | some pair =>
      obtain ⟨key, ttl⟩ := pair
      simp only [Option.some.injEq, Prod.mk.injEq]
      rcases s.store.enter_cases key ttl with ⟨e, he⟩ | ⟨b, leases, he, hne⟩
      · rw [he]
        refine ⟨?_, fun _ => h⟩
        rintro - key' ttl' ⟨rfl, rfl⟩
        exact Or.inr (Or.inr ⟨e, by rw [he]⟩)
      · rw [he]
        -- Some lease is there now: it is in a session, or about to be dropped, or left behind.
        constructor
        · rintro hkept key' ttl' ⟨rfl, rfl⟩
          by_cases hstatus : s.lifecycle.status = .connected
          · exact Or.inl hstatus
          · by_cases hopen : s.Closing
            · exact Or.inr (Or.inl hopen)
            · exact absurd ⟨hstatus, hopen, hne⟩ hkept
        · rintro horder ⟨hstatus, hopen, -⟩
          rcases horder key ttl ⟨rfl, rfl⟩ with hconn | hclosing | ⟨e, herr⟩
          · exact hstatus hconn
          · exact hopen hclosing
          · rw [he] at herr
            cases herr

/-- **The step lemma.** Where no lease has outlived its session, the next step leaves none behind
exactly if it is orderly. -/
theorem outlived_step_iff (hc : Coherent s.lifecycle) (h : ¬ s.Outlived) (e : Step) :
    ¬ (s.step e).Outlived ↔ s.Orderly e := by
  cases e with
  | take => exact ⟨fun _ => trivial, fun _ => not_outlived_take h⟩
  | proceed => exact ⟨fun _ => trivial, fun _ => not_outlived_proceed hc h⟩
  | drop task => exact outlived_drop_iff hc h task
  | enter i => exact outlived_enter_iff h i
  | ask task transition => exact ⟨fun _ => trivial, fun _ => h⟩
  | check key ttl =>
      refine ⟨fun _ => trivial, fun _ => ?_⟩
      simp only [step]
      split <;> exact h
  | remove key =>
      refine ⟨fun _ => trivial, fun _ hout => h ⟨hout.1, hout.2.1, fun hempty => hout.2.2 ?_⟩⟩
      show s.store.leases.erase key = {}
      rw [hempty]
      rfl
  | sweep =>
      refine ⟨fun _ => trivial, fun _ hout => h ⟨hout.1, hout.2.1, fun hempty => hout.2.2 ?_⟩⟩
      show s.store.leases.sweep s.store.now = {}
      rw [hempty]
      rfl
  | elapse d => exact ⟨fun _ => trivial, fun _ => h⟩

theorem coherent_step (hc : Coherent s.lifecycle) (e : Step) : Coherent (s.step e).lifecycle := by
  cases e with
  | ask task transition => exact ⟨hc.guarded, hc.busy⟩
  | take =>
      simp only [step]
      split
      · exact hc.take
      · exact hc
  | proceed =>
      simp only [step, proceed]
      split
      · exact hc
      · split
        · exact hc
        · exact hc
        · exact hc
        · exact hc
        · exact hc.complete
  | drop task =>
      simp only [step]
      split
      · exact hc
      · exact hc.cancel task
  | check key ttl =>
      simp only [step]
      split <;> exact hc
  | enter i =>
      simp only [step]
      split <;> exact hc
  | remove key => exact hc
  | sweep => exact hc
  | elapse d => exact hc

/-! ## Runs -/

/-- A run of orderly steps leaves no lease behind at any moment, and no other run does so. -/
theorem orderly_run_iff (hc : Coherent s.lifecycle) (h : ¬ s.Outlived) (steps : List Step) :
    (∀ n e, steps[n]? = some e → (s.run (steps.take n)).Orderly e) ↔
      ∀ n, ¬ (s.run (steps.take n)).Outlived := by
  induction steps generalizing s with
  | nil => exact ⟨fun _ n => by simpa [run] using h, fun _ n e he => by simp at he⟩
  | cons e rest ih =>
      -- Either way the first step leaves nothing behind, and the rest starts from there.
      constructor
      · intro horder n
        have hfirst := (outlived_step_iff hc h e).mpr (horder 0 e rfl)
        cases n with
        | zero => exact h
        | succ n => exact (ih (coherent_step hc e) hfirst).mp (fun m d hd => horder (m + 1) d hd) n
      · intro hnever n d hd
        have hfirst : ¬ (s.step e).Outlived := hnever 1
        cases n with
        | zero =>
            cases hd
            exact (outlived_step_iff hc h e).mp hfirst
        | succ n =>
            exact (ih (coherent_step hc e) hfirst).mpr (fun m => hnever (m + 1)) n d hd

theorem coherent_run (hc : Coherent s.lifecycle) (steps : List Step) :
    Coherent (s.run steps).lifecycle := by
  induction steps generalizing s with
  | nil => exact hc
  | cons e rest ih => exact ih (coherent_step hc e)

/-- What a store owes to its next session: where no session is open and no transition is under way
there is no lease, and there is none when a session opens. -/
structure Cleared (s : Shared) : Prop where
  closed : s.lifecycle.status ≠ .connected → s.lifecycle.turn = none →
    s.lifecycle.waiting = [] → s.store.leases = {}
  opening : ∀ t, s.lifecycle.turn = some t → t.request.transition = .connect →
    s.store.leases = {} ∧ (s.step .proceed).store.leases = {}

theorem cleared_of_not_outlived (hc : Coherent s.lifecycle) (h : ¬ s.Outlived) : s.Cleared := by
  refine ⟨fun hstatus hfree _ => leases_eq_empty h hstatus (not_closing_of_free hfree),
    fun t ht hconn => ?_⟩
  have hempty := leases_eq_empty h (hc.busy t ht) (not_closing_of_connect ht hconn)
  refine ⟨hempty, ?_⟩
  simp only [step, proceed, ht, hconn]
  split <;> first | exact hempty | rfl

/-- The calls that have asked for a transition go on, and no others. -/
def Resumes (steps : List Step) : Prop := ∀ e ∈ steps, e = .take ∨ e = .proceed

/-- Where nobody has the turn, a lease without a session is there until somebody connects. The
induction is on those who wait: disconnects in front are refused, and the first connect finds the
lease. -/
theorem exists_not_cleared_of_free (waiting : List Request) (hc : Coherent s.lifecycle)
    (hfree : s.lifecycle.turn = none) (hwaiting : s.lifecycle.waiting = waiting)
    (hstatus : s.lifecycle.status ≠ .connected) (hne : s.store.leases ≠ {}) :
    ∃ calls, Resumes calls ∧ ¬ (s.run calls).Cleared := by
  induction waiting generalizing s with
  | nil =>
      refine ⟨[], by simp [Resumes], fun hcleared => hne ?_⟩
      exact hcleared.closed hstatus hfree hwaiting
  | cons r rest ih =>
      have htake : (s.step .take).lifecycle = s.lifecycle.take ∧
          (s.step .take).store.leases = s.store.leases := by
        simp only [step, hfree, follow, and_self]
      have hguarded : s.lifecycle.guarded ≠ .connected := hc.guarded ▸ hstatus
      cases htrans : r.transition with
      | connect =>
          refine ⟨[.take], by simp [Resumes], fun hcleared => hne ?_⟩
          have hturn : (s.step .take).lifecycle.turn = some ⟨r, s.lifecycle.now + r.delay⟩ := by
            rw [htake.1]
            simp [Machine.take, hfree, hwaiting, Machine.refusal?, htrans, hguarded]
          exact htake.2.symm.trans (hcleared.opening _ hturn htrans).1
      | disconnect =>
          have hrefused : (s.step .take).lifecycle.turn = none ∧
              (s.step .take).lifecycle.waiting = rest ∧
              (s.step .take).lifecycle.status = s.lifecycle.status := by
            rw [htake.1]
            simp [Machine.take, hfree, hwaiting, Machine.refusal?, htrans, hguarded]
          obtain ⟨hfree', hwaiting', hstatus'⟩ := hrefused
          obtain ⟨calls, hcalls, hnot⟩ := ih (coherent_step hc .take) hfree' hwaiting'
            (hstatus' ▸ hstatus) (htake.2 ▸ hne)
          refine ⟨.take :: calls, ?_, hnot⟩
          intro e he
          rcases List.mem_cons.mp he with rfl | he
          · exact Or.inl rfl
          · exact hcalls e he

/-- Where a lease has outlived its session, the calls that have asked for a transition need only go
on, and the store is closed, or its next session opened, with the lease in it. -/
theorem exists_not_cleared (hc : Coherent s.lifecycle) (h : s.Outlived) :
    ∃ calls, Resumes calls ∧ ¬ (s.run calls).Cleared := by
  obtain ⟨hstatus, hopen, hne⟩ := h
  cases hturn : s.lifecycle.turn with
  | none => exact exists_not_cleared_of_free _ hc hturn rfl hstatus hne
  | some t =>
      cases htrans : t.request.transition with
      | connect =>
          exact ⟨[], by simp [Resumes], fun hcleared => hne (hcleared.opening t hturn htrans).1⟩
      | disconnect =>
          -- A disconnect that is not about to drop the leases has only to return.
          have hdone : s.stage = .done :=
            Decidable.byContradiction fun hstage => hopen ⟨t, hturn, htrans, hstage⟩
          have hproceed : s.step .proceed = s.follow s.lifecycle.complete := by
            simp only [step, proceed, hturn, htrans, hdone]
          have hcomplete : s.lifecycle.complete.turn = none ∧
              s.lifecycle.complete.status = s.lifecycle.status := by
            simp [Machine.complete, hturn, Machine.finish, htrans]
          have hc' := coherent_step hc .proceed
          rw [hproceed] at hc'
          obtain ⟨calls, hcalls, hnot⟩ := exists_not_cleared_of_free
            (s := s.follow s.lifecycle.complete) _ hc' hcomplete.1 rfl
            (by simpa [follow, hcomplete.2] using hstatus) hne
          refine ⟨.proceed :: calls, ?_, ?_⟩
          · intro e he
            rcases List.mem_cons.mp he with rfl | he
            · exact Or.inr rfl
            · exact hcalls e he
          · show ¬ ((s.step .proceed).run calls).Cleared
            rwa [hproceed]

/-- **Leases end with their session** in the runs of orderly steps, with a sweep or without, and in
no others. Exactly these runs have at no moment a lease outside a session that nobody is about to
drop. Where there is such a lease the calls that have asked for a transition need only go on, and
the store is closed, or its next session opened, with the lease in it. -/
theorem entries_end_with_session (sweepInterval : Option Duration) (now clockEnd : Nat)
    (steps : List Step) :
    let s := fresh sweepInterval now clockEnd
    ((∀ n e, steps[n]? = some e → (s.run (steps.take n)).Orderly e) ↔
        ∀ n, ¬ (s.run (steps.take n)).Outlived) ∧
      ((∀ n e, steps[n]? = some e → (s.run (steps.take n)).Orderly e) →
        ∀ n, (s.run (steps.take n)).Cleared) ∧
      ∀ n, (s.run (steps.take n)).Outlived →
        ∃ calls, Resumes calls ∧ ¬ ((s.run (steps.take n)).run calls).Cleared := by
  intro s
  have hc : Coherent s.lifecycle := ⟨rfl, nofun⟩
  have hempty : s.store.leases = {} := rfl
  have hiff := orderly_run_iff hc (not_outlived_of_empty hempty) steps
  refine ⟨hiff, ?_, ?_⟩
  · intro horder n
    exact cleared_of_not_outlived (coherent_run hc _) (hiff.mp horder n)
  · intro n hout
    exact exists_not_cleared (coherent_run hc _) hout

/-- The steps of a store that is connected and has granted a key for a minute. -/
def granting : List Step :=
  [.ask 0 .connect, .take, .proceed, .proceed, .check "k" (.ofSeconds 60), .enter 0]

/-- A disconnect that is dropped while it waits for the sweep to end leaves the lease behind: no
session is open, no transition is under way and the lease is there, and the next session is opened
with the key still held. -/
theorem dropped_disconnect_leaves_lease :
    let s := (fresh (some (.ofMillis 10)) 0 lastInstant).run
      (granting ++ [.ask 1 .disconnect, .take, .proceed, .drop 1])
    let s' := s.run [.ask 2 .connect, .take, .proceed, .proceed]
    s.lifecycle.status = .disconnected ∧ s.lifecycle.turn.isNone ∧ s.lifecycle.waiting.isEmpty ∧
      s.store.leases.size = 1 ∧ s'.lifecycle.status = .connected ∧ s'.store.exists? "k" := by
  decide +kernel

/-- So does a disconnect that comes between the two halves of an attempt to acquire, with no sweep
and no call dropped. -/
theorem late_entry_leaves_lease :
    let s := (fresh none 0 lastInstant).run
      [.ask 0 .connect, .take, .proceed, .proceed, .check "k" (.ofSeconds 60),
        .ask 1 .disconnect, .take, .proceed, .proceed, .proceed, .enter 0]
    let s' := s.run [.ask 2 .connect, .take, .proceed, .proceed]
    s.lifecycle.status = .disconnected ∧ s.lifecycle.turn.isNone ∧ s.lifecycle.waiting.isEmpty ∧
      s.store.leases.size = 1 ∧ s'.lifecycle.status = .connected ∧ s'.store.exists? "k" := by
  decide +kernel

end Shared

end Memory

end KeyLease
