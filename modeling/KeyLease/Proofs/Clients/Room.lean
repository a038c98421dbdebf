import KeyLease.Proofs.Clients.Session
import KeyLease.Proofs.Faults
import KeyLease.Proofs.Memory.Shared

set_option autoImplicit false

/-!
# Room on the clock

A memory store notes the instant at which a lease ends, and its clock can name no instant past its
own end. While the clock has room for the longest lease (`Store.HasRoom`) it can name the end of
every other, and then a call is judged by the bounds of its time to live alone
(`Store.HasRoom.judged`). Time does not go back, so the calls of a whole run are judged like that if
there is room at its end (`Store.judged_run`), and where the steps of several tasks interleave, an
attempt to acquire that was let through is answered yes or no, however late
(`Shared.WithinBounds.step`).
-/

namespace KeyLease

namespace Memory

namespace Store

/-- The clock can still name the end of the longest lease. -/
def HasRoom (s : Store) : Prop := s.now + maxTtl.nanos ≤ s.clockEnd

instance (s : Store) : Decidable s.HasRoom :=
  inferInstanceAs (Decidable (s.now + maxTtl.nanos ≤ s.clockEnd))

theorem HasRoom.accepts {s : Store} (h : s.HasRoom) {ttl : Duration}
    (httl : ensureTtl ttl = .ok ()) : s.Accepts ttl := by
  have hle := (ensureTtl_eq_ok_iff.mp httl).2
  exact ⟨httl, Nat.le_trans (Nat.add_le_add_left hle _) h⟩

/-- A clock has room exactly if it can name the end of every lease within the bounds. -/
theorem hasRoom_iff {s : Store} :
    s.HasRoom ↔ ∀ ttl, ensureTtl ttl = .ok () → s.expiryAfter? ttl = some (s.now + ttl.nanos) := by
  constructor
  · intro h ttl httl
    exact if_pos (h.accepts httl).2
  · intro h
    have hlongest := h maxTtl (by decide)
    unfold expiryAfter? at hlongest
    split at hlongest
    · assumption
    · cases hlongest

/-! ## Calls -/

section

variable {s : Store}

theorem tryAcquire_judged (h : s.HasRoom) (key : String) (ttl : Duration) :
    (Call.tryAcquire key ttl).JudgedByBounds (s.tryAcquire key ttl).1 := by
  refine Call.judged_tryAcquire ?_ ?_ ?_
  · rintro rfl
    rfl
  · intro hkey e httl
    simp only [tryAcquire, ensureKey_eq_ok_iff.mpr hkey, httl]
  · intro hkey httl fault
    by_cases hconn : s.status = .connected
    · simp [tryAcquire_of_accepts hconn hkey (h.accepts httl)]
    · have hst : s.status.ensureConnected = .error .notConnected := by
        rw [Status.ensureConnected_eq, if_pos hconn]
      simp [tryAcquire, ensureKey_eq_ok_iff.mpr hkey, httl, hst]

/-- A memory store whose clock has room judges calls by the bounds. -/
theorem HasRoom.judged (h : s.HasRoom) (c : Call) : c.JudgedByBounds (s.perform c).1 := by
  cases c with
  | tryAcquire key ttl => exact tryAcquire_judged h key ttl
  | release key =>
      refine fun fault => iff_of_false ?_ id
      rw [perform, release, ensureKey_eq, Status.ensureConnected_eq]
      split_ifs <;> simp
  | «exists» key => exact fun fault => iff_of_false (by simp [perform]) id
  | check probe =>
      refine fun fault => iff_of_false ?_ id
      rw [perform]
      cases s.status <;> simp [Status.health, Except.map]

end

/-! ## Runs -/

/-- Time has gone on between two states of a store, and its clock ends where it did. -/
structure Onward (s s' : Store) : Prop where
  now_le : s.now ≤ s'.now
  clockEnd : s'.clockEnd = s.clockEnd

theorem Onward.of_eq {s s' : Store} (hnow : s'.now = s.now) (hend : s'.clockEnd = s.clockEnd) :
    Onward s s' := ⟨Nat.le_of_eq hnow.symm, hend⟩

theorem Onward.refl (s : Store) : Onward s s := .of_eq rfl rfl

theorem Onward.trans {s u v : Store} (h : Onward s u) (h' : Onward u v) : Onward s v :=
  ⟨Nat.le_trans h.now_le h'.now_le, h'.clockEnd.trans h.clockEnd⟩

/-- A clock that has room at some time has had room all along. -/
theorem Onward.hasRoom {s s' : Store} (h : Onward s s') (hroom : s'.HasRoom) : s.HasRoom := by
  unfold HasRoom at *
  rw [← h.clockEnd]
  exact Nat.le_trans (Nat.add_le_add_right h.now_le _) hroom

theorem onward_of_later {s s' : Store} (h : Later s s') : Onward s s' := ⟨h.now_le, h.clockEnd⟩

theorem onward_act (s : Store) (a : Action) : Onward s (s.act a).2 := by
  cases a with
  | connect =>
      rcases s.connect_cases with ⟨hres, -⟩ | ⟨-, hres⟩ <;> rw [act, hres] <;> exact .of_eq rfl rfl
  | disconnect =>
      rcases s.disconnect_cases with ⟨hres, -⟩ | ⟨-, hres⟩ <;> rw [act, hres] <;>
        exact .of_eq rfl rfl
  | call c =>
      obtain ⟨-, hnow, hend⟩ := s.perform_frame c
      exact .of_eq hnow hend
  | sweep => exact .of_eq rfl rfl
  | tick => exact onward_of_later (later_tick s)
  | drift d => exact onward_of_later (later_of_clock s (Nat.le_add_right _ _))
  | jump d => exact onward_of_later (later_jump s d)
  | pass d => exact onward_of_later (later_sleepUntil s _)

theorem onward_run (s : Store) (actions : List Action) : Onward s (s.run actions).2 := by
  induction actions generalizing s with
  | nil => exact .refl s
  | cons a rest ih => exact (s.onward_act a).trans (ih (s.act a).2)

/-- Every call of a run is judged by the bounds, if at the end of the run the clock still has
room. -/
theorem judged_run {s : Store} {actions : List Action} (h : (s.run actions).2.HasRoom) :
    ∀ e ∈ (s.run actions).1, ∀ c a, e.action = .call c → e.outcome = .answer a →
      c.JudgedByBounds a := by
  induction actions generalizing s with
  | nil => exact fun e he => absurd he List.not_mem_nil
  | cons b rest ih =>
      intro e he c a hcall hanswer
      rcases List.mem_cons.mp he with rfl | he
      · -- room at the end of the run is room now
        have hroom : s.HasRoom := (s.onward_run (b :: rest)).hasRoom h
        obtain rfl : b = .call c := hcall
        obtain rfl : (s.perform c).1 = a := Outcome.answer.inj hanswer
        exact hroom.judged c
      · exact ih h e he c a hcall hanswer

/-! ## Interleaved steps -/

/-- The first half of an attempt to acquire lets through what is within the bounds, and refuses the
rest. -/
theorem admits_cases (m : Store) (key : String) (ttl : Duration) :
    (m.admits key ttl = .ok () ∧ key ≠ "" ∧ ensureTtl ttl = .ok ()) ∨
      ∃ e, m.admits key ttl = .error e ∧ e.IsRefusal := by
  unfold admits
  by_cases hkey : key = ""
  · subst hkey
    exact Or.inr ⟨.keyEmpty, rfl, Or.inl rfl⟩
  rw [ensureKey_eq_ok_iff.mpr hkey]
  cases httl : ensureTtl ttl with
  | error e => exact Or.inr ⟨e, rfl, Or.inr (Or.inr ⟨ttl, httl⟩)⟩
  | ok _ =>
      rw [Status.ensureConnected_eq]
      split_ifs with hconn
      · exact Or.inr ⟨.notConnected, rfl, Or.inr (Or.inl rfl)⟩
      · exact Or.inl ⟨rfl, hkey, rfl⟩

end Store

namespace Shared

variable {s : Shared}

/-- Whatever step is taken, time does not go back. -/
theorem onward_step (s : Shared) (e : Step) : s.store.Onward (s.step e).store := by
  cases e with
  | ask task transition => exact .of_eq rfl rfl
  | take =>
      rw [step]
      split <;> exact .of_eq rfl rfl
  | proceed =>
      rw [step, proceed]
      split
      · exact .of_eq rfl rfl
      · split <;> exact .of_eq rfl rfl
  | drop task =>
      rw [step]
      split <;> exact .of_eq rfl rfl
  | check key ttl =>
      rw [step]
      split <;> exact .of_eq rfl rfl
  | enter i =>
      rw [step]
      split
      · exact .of_eq rfl rfl
      · rename_i key ttl _
        obtain ⟨-, hnow, hend⟩ := { s.store with status := .connected }.perform_frame
          (.tryAcquire key ttl)
        exact .of_eq hnow hend
  | remove key => exact .of_eq rfl rfl
  | sweep => exact .of_eq rfl rfl
  | elapse d => exact ⟨Nat.le_add_right _ _, rfl⟩

/-- Whoever has been let through asks for a time to live within the bounds, and whoever has been
told of a failure has been refused. -/
structure WithinBounds (s : Shared) : Prop where
  admitted : ∀ key ttl, (key, ttl) ∈ s.admitted → key ≠ "" ∧ ensureTtl ttl = .ok ()
  refused : ∀ e, .error e ∈ s.answers → e.IsRefusal

/-- An attempt to acquire that has been let through is answered yes or no. -/
theorem exists_enter {m : Store} (h : m.HasRoom) {key : String} {ttl : Duration} (hkey : key ≠ "")
    (httl : ensureTtl ttl = .ok ()) : ∃ acquired, (m.enter key ttl).1 = .ok acquired := by
  have hacc : { m with status := .connected }.Accepts ttl := h.accepts httl
  rw [Store.enter, Store.tryAcquire_of_accepts rfl hkey hacc]
  exact ⟨_, rfl⟩

/-- One step keeps the bounds, if the clock has room. -/
theorem WithinBounds.step (hw : s.WithinBounds) (h : s.store.HasRoom) (e : Step) :
    (s.step e).WithinBounds := by
  cases e with
  | check key ttl =>
      rw [Shared.step]
      split
      · rename_i hadmits
        refine ⟨fun key' ttl' hmem => ?_, hw.refused⟩
        rcases List.mem_append.mp hmem with hmem | hmem
        · exact hw.admitted key' ttl' hmem
        · cases List.mem_singleton.mp hmem
          rcases s.store.admits_cases key ttl with ⟨-, hwithin⟩ | ⟨e, he, -⟩
          · exact hwithin
          · cases he.symm.trans hadmits
      · rename_i e hrefuses
        refine ⟨hw.admitted, fun e' hmem => ?_⟩
        rcases List.mem_append.mp hmem with hmem | hmem
        · exact hw.refused e' hmem
        · cases List.mem_singleton.mp hmem
          rcases s.store.admits_cases key ttl with ⟨hok, -⟩ | ⟨e', he', hrefusal⟩
          · cases hok.symm.trans hrefuses
          · cases he'.symm.trans hrefuses
            exact hrefusal
  | enter i =>
      rw [Shared.step]
      split
      · exact hw
      · rename_i key ttl hat
        -- the checks lie some steps back: that they were passed is what `admitted` has kept
        obtain ⟨hkey, httl⟩ := hw.admitted key ttl (List.mem_of_getElem? hat)
        obtain ⟨acquired, hyes⟩ := exists_enter h hkey httl
        refine ⟨fun key' ttl' hmem => hw.admitted key' ttl' (List.mem_of_mem_eraseIdx hmem),
          fun e hmem => ?_⟩
        simp only [hyes, List.mem_append, List.mem_singleton, reduceCtorEq, or_false] at hmem
        exact hw.refused e hmem
  | ask task transition => exact ⟨hw.admitted, hw.refused⟩
  | take =>
      rw [Shared.step]
      split <;> exact ⟨hw.admitted, hw.refused⟩
  | proceed =>
      rw [Shared.step, Shared.proceed]
      split
      · exact hw
      · split <;> exact ⟨hw.admitted, hw.refused⟩
  | drop task =>
      rw [Shared.step]
      split <;> exact ⟨hw.admitted, hw.refused⟩
  | remove key => exact ⟨hw.admitted, hw.refused⟩
  | sweep => exact ⟨hw.admitted, hw.refused⟩
  | elapse d => exact ⟨hw.admitted, hw.refused⟩

theorem onward_run (s : Shared) (steps : List Step) : s.store.Onward (s.run steps).store := by
  induction steps generalizing s with
  | nil => exact .refl s.store
  | cons e rest ih => exact (s.onward_step e).trans (ih (s.step e))

theorem WithinBounds.run (hw : s.WithinBounds) {steps : List Step}
    (h : (s.run steps).store.HasRoom) : (s.run steps).WithinBounds := by
  induction steps generalizing s with
  | nil => exact hw
  | cons e rest ih => exact ih (hw.step ((s.onward_run (e :: rest)).hasRoom h) e) h

/-- Whatever steps come between those of an attempt to acquire, it fails only where it is refused,
if the clock has room to the end. -/
theorem refusal_run {interval : Option Duration} {now clockEnd : Nat} {steps : List Step}
    (h : ((fresh interval now clockEnd).run steps).store.HasRoom) {e : Failure}
    (he : .error e ∈ ((fresh interval now clockEnd).run steps).answers) : e.IsRefusal := by
  have hstart : (fresh interval now clockEnd).WithinBounds := by
    constructor
    · intro key ttl hmem
      cases hmem
    · intro e hmem
      cases hmem
  exact (hstart.run h).refused e he

end Shared

end Memory

end KeyLease
