import KeyLease.Proofs.Memory.Alike

set_option autoImplicit false

/-!
# The history law of a memory store

The leases that are in the table of a store and those that are held are different things, since an
expired lease stays in the table until it is overwritten, given back or swept. What is held can be
read off the history alone: a lease is open from the request that was granted it until it expires,
is released or its session is closed (`OpenLease`). The main statement is `answers_follow_history`:
at every point of every run the store answers as the open leases say, and a store that sweeps gives
the answers of one that never does.

The invariant is `Tracks`: among the expiries that lie ahead, the table has exactly those of the
open leases.
-/

namespace KeyLease.Memory

/-! ## The invariant -/

/-- The leases ahead in the table are those that the history has open, at most one for a key. -/
structure Tracks (h : List Entry) (s : Store) : Prop where
  agree : ∀ key expiry, s.now < expiry →
    (s.leases.expiry? key = some expiry ↔ ∃ i, OpenLease h s.now key i expiry)
  unique : ∀ key i j expiry expiry', OpenLease h s.now key i expiry →
    OpenLease h s.now key j expiry' → i = j

theorem Tracks.isLive_iff {h : List Entry} {s : Store} (ht : Tracks h s) {key : String} :
    s.leases.isLive s.now key = true ↔ Held h s.now key := by
  rw [Leases.isLive_iff]
  constructor
  · rintro ⟨expiry, hexp, hlt⟩
    obtain ⟨i, ho⟩ := (ht.agree key expiry hlt).mp hexp
    exact ⟨i, expiry, ho⟩
  · rintro ⟨i, expiry, ho⟩
    exact ⟨expiry, (ht.agree key expiry ho.unexpired).mpr ⟨i, ho⟩, ho.unexpired⟩

theorem Tracks.start {s : Store} (hls : s.leases = {}) : Tracks [] s := by
  have hnone : ∀ key i expiry, ¬ OpenLease [] s.now key i expiry := by
    intro key i expiry ho
    exact absurd ho.lt_length (Nat.not_lt_zero i)
  refine ⟨?_, fun key i j expiry expiry' ho _ => absurd ho (hnone key i expiry)⟩
  intro key expiry _
  simp [hls, hnone]

/-- A quiet action keeps the invariant if it keeps the expiries that lie ahead of it. -/
theorem Tracks.quiet {h : List Entry} {s s' : Store} {e : Entry} (ht : Tracks h s) (hq : e.Quiet)
    (hle : s.now ≤ s'.now)
    (hls : ∀ key expiry, s'.now < expiry →
      (s'.leases.expiry? key = some expiry ↔ s.leases.expiry? key = some expiry)) :
    Tracks (h ++ [e]) s' := by
  constructor
  · intro key expiry hlt
    have hlt' : s.now < expiry := Nat.lt_of_le_of_lt hle hlt
    rw [hls key expiry hlt, ht.agree key expiry hlt']
    -- The entry changes no lease, and what lies ahead later has lain ahead before.
    constructor
    · rintro ⟨i, ho⟩
      exact ⟨i, hq.openLease_snoc_iff.mpr ⟨ho.granted, hlt, ho.kept⟩⟩
    · rintro ⟨i, ho⟩
      exact ⟨i, (hq.openLease_snoc_iff.mp ho).earlier hle⟩
  · intro key i j expiry expiry' hi hj
    exact ht.unique key i j expiry expiry' ((hq.openLease_snoc_iff.mp hi).earlier hle)
      ((hq.openLease_snoc_iff.mp hj).earlier hle)

/-- A key that is granted while it is free has the new lease open, and no other. -/
theorem Tracks.granted {h : List Entry} {s s' : Store} {e : Entry} {key : String} {expiry : Nat}
    (ht : Tracks h s) (hgr : ∀ k, e.granted? k = if key = k then some expiry else none)
    (hends : ∀ k, e.ends k = false) (hnow : s'.now = s.now)
    (hfree : s.leases.isLive s.now key = false) (hlt : s.now < expiry)
    (hls : s'.leases = s.leases.insert key expiry) : Tracks (h ++ [e]) s' := by
  -- No lease of the key is open before, so the new one stands alone.
  have hnone : ∀ i x, ¬ OpenLease h s.now key i x := by
    intro i x ho
    have hlive := ht.isLive_iff.mpr ⟨i, x, ho⟩
    rw [hfree] at hlive
    exact Bool.false_ne_true hlive
  rw [← hnow] at hlt
  constructor
  · intro k x hx
    rw [hls, Leases.expiry?_insert]
    by_cases hk : k = key
    · subst hk
      rw [if_pos rfl, Option.some.injEq]
      constructor
      · rintro rfl
        exact ⟨h.length, openLease_snoc.mpr (Or.inl ⟨rfl, by simp [hgr], hlt⟩)⟩
      · rintro ⟨i, ho⟩
        rcases openLease_snoc.mp ho with ⟨-, hg, -⟩ | ⟨hold, -⟩
        · simpa [hgr] using hg
        · exact absurd (hnow ▸ hold) (hnone i x)
    · -- Other keys are as they were, in the table and in the history.
      have hne : key ≠ k := fun heq => hk heq.symm
      rw [if_neg hk, ht.agree k x (hnow ▸ hx), hnow]
      simp [openLease_snoc, hgr, hends, hne]
  · intro k i j x x' hi hj
    by_cases hk : key = k
    · subst hk
      rcases openLease_snoc.mp hi with ⟨hi, -⟩ | ⟨hi, -⟩
      · rcases openLease_snoc.mp hj with ⟨hj, -⟩ | ⟨hj, -⟩
        · rw [hi, hj]
        · exact absurd (hnow ▸ hj) (hnone j x')
      · exact absurd (hnow ▸ hi) (hnone i x)
    · simp only [openLease_snoc, hgr, hk, if_false, hends, hnow, reduceCtorEq, false_and,
        and_false, false_or, and_true] at hi hj
      exact ht.unique k i j x x' hi hj

/-- Ending the leases of some keys keeps the invariant if they go from the table. -/
theorem Tracks.ended {h : List Entry} {s s' : Store} {e : Entry} (ht : Tracks h s)
    (hgr : ∀ k, e.granted? k = none) (hnow : s'.now = s.now)
    (hls : ∀ k, s'.leases.expiry? k = if e.ends k then none else s.leases.expiry? k) :
    Tracks (h ++ [e]) s' := by
  constructor
  · intro k x hx
    rw [hls, hnow]
    cases hend : e.ends k with
    | true => simp [openLease_snoc, hgr, hend]
    | false => simp [openLease_snoc, hgr, hend, ht.agree k x (hnow ▸ hx)]
  · intro k i j x x' hi hj
    simp only [openLease_snoc, hgr, hnow, reduceCtorEq, false_and, and_false, false_or] at hi hj
    exact ht.unique k i j x x' hi.1 hj.1

/-- One action keeps the invariant. -/
theorem Tracks.step {h : List Entry} {s s' : Store} {e : Entry} (ht : Tracks h s)
    (heff : Effect s e s') : Tracks (h ++ [e]) s' := by
  cases heff with
  | idle quiet now_le leases =>
      exact ht.quiet quiet now_le fun key expiry _ => by rw [leases]
  | swept t quiet now_le le_now leases =>
      refine ht.quiet quiet (Nat.le_trans now_le le_now) fun key expiry hlt => ?_
      rw [leases, Leases.expiry?_sweep, Option.filter_eq_some_iff]
      have hsweep : t < expiry := Nat.lt_of_le_of_lt le_now hlt
      simp [hsweep]
  | granted key expiry grants ends now_eq free later leases =>
      exact ht.granted grants ends now_eq free later leases
  | released key grants ends now_eq leases =>
      refine ht.ended grants now_eq fun k => ?_
      rw [leases, Leases.expiry?_erase, ends]
      by_cases hk : k = key
      · simp [hk]
      · have hne : key ≠ k := fun heq => hk heq.symm
        simp [hk, hne]
  | closed grants ends now_eq leases =>
      refine ht.ended grants now_eq fun k => ?_
      rw [leases, ends]
      rfl

/-- Every run keeps the invariant. -/
theorem Tracks.run {h : List Entry} {s : Store} (ht : Tracks h s) (actions : List Action) :
    Tracks (h ++ (s.run actions).1) (s.run actions).2 := by
  induction actions generalizing h s with
  | nil => rwa [Store.run, List.append_nil]
  | cons a as ih =>
      have hstep := ih (ht.step (act_effect s a))
      rwa [List.append_assoc] at hstep

/-! ## Sweeps change no answer -/

/-- Whether an action is nothing but a sweep. -/
def Action.isSweep : Action → Bool
  | .sweep | .tick => true
  | _ => false

/-- Two stores that differ at most in leases that have expired, and in their sweeps. -/
structure Alike (s s' : Store) : Prop where
  now : s.now = s'.now
  clockEnd : s.clockEnd = s'.clockEnd
  status : s.status = s'.status
  isLive : ∀ t key, s.now ≤ t → s.leases.isLive t key = s'.leases.isLive t key

theorem Alike.on {s s' : Store} (hal : Alike s s') (K : String → Prop) : AlikeOn K s s' :=
  ⟨hal.now, hal.clockEnd, hal.status, fun t key _ => hal.isLive t key⟩

theorem AlikeOn.alike {s s' : Store} (hal : AlikeOn (fun _ => True) s s') : Alike s s' :=
  ⟨hal.now, hal.clockEnd, hal.status, fun t key => hal.isLive t key trivial⟩

theorem Alike.later {s s' u u' : Store} (hal : Alike s s') (hu : Later s u) (hu' : Later s' u')
    (hnow : u.now = u'.now) : Alike u u' :=
  ((hal.on _).later hu hu' hnow).alike

theorem Alike.perform {s s' : Store} (hal : Alike s s') (c : Call) :
    (s.perform c).1 = (s'.perform c).1 ∧ Alike (s.perform c).2 (s'.perform c).2 := by
  obtain ⟨hsame, hnext⟩ := (hal.on fun _ => True).perform fun _ _ _ => trivial
  exact ⟨hsame, hnext.alike⟩

theorem Alike.connect {s s' : Store} (hal : Alike s s') :
    s.connect.1 = s'.connect.1 ∧ Alike s.connect.2 s'.connect.2 := by
  rcases s.connect_cases with ⟨hres, hconn⟩ | ⟨hconn, hres⟩ <;>
    rcases s'.connect_cases with ⟨hres', hconn'⟩ | ⟨hconn', hres'⟩
  · rw [hres, hres']
    exact ⟨rfl, hal⟩
  · exact absurd (hal.status ▸ hconn) hconn'
  · exact absurd (hal.status ▸ hconn') hconn
  · rw [hres, hres']
    exact ⟨rfl, hal.now, hal.clockEnd, rfl, hal.isLive⟩

theorem Alike.disconnect {s s' : Store} (hal : Alike s s') :
    s.disconnect.1 = s'.disconnect.1 ∧ Alike s.disconnect.2 s'.disconnect.2 := by
  rcases s.disconnect_cases with ⟨hres, hconn⟩ | ⟨hconn, hres⟩ <;>
    rcases s'.disconnect_cases with ⟨hres', hconn'⟩ | ⟨hconn', hres'⟩
  · rw [hres, hres']
    exact ⟨rfl, hal⟩
  · exact absurd (hal.status ▸ hconn') hconn
  · exact absurd (hal.status ▸ hconn) hconn'
  · rw [hres, hres']
    exact ⟨rfl, hal.now, hal.clockEnd, rfl, fun _ _ _ => rfl⟩

/-- An action that is no sweep has one outcome on stores that are alike, and leaves them alike. -/
theorem Alike.act {s s' : Store} (hal : Alike s s') {a : Action} (ha : a.isSweep = false) :
    s.entry a = s'.entry a ∧ Alike (s.act a).2 (s'.act a).2 := by
  have hentry : (s.act a).1 = (s'.act a).1 → s.entry a = s'.entry a := by
    intro heq
    simp only [Store.entry, hal.now, heq]
  cases a with
  | connect => exact ⟨hentry (congrArg Outcome.session hal.connect.1), hal.connect.2⟩
  | disconnect => exact ⟨hentry (congrArg Outcome.session hal.disconnect.1), hal.disconnect.2⟩
  | call c => exact ⟨hentry (congrArg Outcome.answer (hal.perform c).1), (hal.perform c).2⟩
  | sweep => cases ha
  | tick => cases ha
  | drift d =>
      refine ⟨hentry rfl, ?_⟩
      refine hal.later (later_of_clock s (Nat.le_add_right _ _))
        (later_of_clock s' (Nat.le_add_right _ _)) ?_
      simp only [Store.act, hal.now]
  | jump d =>
      refine ⟨hentry rfl, hal.later (later_jump s d) (later_jump s' d) ?_⟩
      simp only [Store.act, Store.jump, Store.tick_now, hal.now]
  | pass d =>
      refine ⟨hentry rfl, hal.later (later_sleepUntil s _) (later_sleepUntil s' _) ?_⟩
      simp only [Store.act, Store.pass, Store.sleepUntil_now, hal.now]

/-- On stores that are alike a run with sweeps has the history of the run without them. -/
theorem Alike.run_filter {s s' : Store} (hal : Alike s s') (actions : List Action) :
    (s.run actions).1.filter (!·.action.isSweep)
      = (s'.run (actions.filter (!·.isSweep))).1 := by
  induction actions generalizing s s' with
  | nil => rfl
  | cons a as ih =>
      cases ha : a.isSweep with
      | true =>
          -- One run sweeps and the other does nothing: time stands still in both.
          have hlater : Later s (s.act a).2 ∧ (s.act a).2.now = s'.now := by
            cases a with
            | sweep => exact ⟨later_sweep s s.sweeper, hal.now⟩
            | tick => exact ⟨later_tick s, s.tick_now.trans hal.now⟩
            | _ => cases ha
          have hih := ih (hal.later hlater.1 (Later.refl s') hlater.2)
          simpa [Store.run, Store.entry, ha] using hih
      | false =>
          obtain ⟨hentry, hnext⟩ := hal.act ha
          have hact : (s'.entry a).action = a := rfl
          simp [Store.run, ha, hentry, hact, ih hnext]

/-! ## The law -/

/-- What the store would answer about a key at a point of a run, by the leases that are open. -/
structure Lawful (h : List Entry) (s : Store) (key : String) : Prop where
  /-- At most one lease is open. -/
  unique : ∀ i j expiry expiry', OpenLease h s.now key i expiry →
    OpenLease h s.now key j expiry' → i = j
  /-- An accepted request is granted exactly if no lease is open. -/
  acquired : ∀ ttl, s.Accepts ttl → ∃ granted,
    (s.perform (.tryAcquire key ttl)).1 = .ok granted ∧ (granted = true ↔ ¬ Held h s.now key)
  /-- A request that is denied leaves the store, and so the open lease with its expiry. -/
  denied : ∀ ttl i expiry, s.Accepts ttl → OpenLease h s.now key i expiry →
    s.perform (.tryAcquire key ttl) = (.ok false, s) ∧ s.leases.expiry? key = some expiry
  released : ∃ held,
    (s.perform (.release key)).1 = .ok held ∧ (held = true ↔ Held h s.now key)
  asked : ∃ held,
    (s.perform (.exists key)).1 = .ok held ∧ (held = true ↔ Held h s.now key)

theorem Tracks.lawful {h : List Entry} {s : Store} (ht : Tracks h s)
    (hconn : s.status = .connected) {key : String} (hkey : key ≠ "") : Lawful h s key := by
  refine ⟨ht.unique key, ?_, ?_, ?_, ?_⟩
  · intro ttl hacc
    refine ⟨!s.leases.isLive s.now key, ?_, ?_⟩
    · cases hlive : s.leases.isLive s.now key with
      | true => exact congrArg Prod.fst (Store.tryAcquire_of_isLive hconn hkey hacc hlive)
      | false => exact congrArg Prod.fst (Store.tryAcquire_of_not_isLive hconn hkey hacc hlive)
    · rw [← ht.isLive_iff]
      simp
  · intro ttl i expiry hacc ho
    have hlive := ht.isLive_iff.mpr ⟨i, expiry, ho⟩
    exact ⟨Store.tryAcquire_of_isLive hconn hkey hacc hlive,
      (ht.agree key expiry ho.unexpired).mpr ⟨i, ho⟩⟩
  · exact ⟨_, congrArg Prod.fst (Store.release_of_connected hconn hkey), ht.isLive_iff⟩
  · exact ⟨_, congrArg _ (Store.exists?_of_connected hconn hkey), ht.isLive_iff⟩

/-- **The history law.** Whatever is done to a memory store, with or without a background sweep and
wherever its clock starts: while it is connected it answers about every key as the open leases of
its history say; and leaving out all sweeps, the background sweep too, changes no entry of the
history. -/
theorem answers_follow_history (now clockEnd : Nat) (interval : Option Duration)
    (actions : List Action) :
    let start : Store := { now, clockEnd, sweepInterval := interval }
    let history := (start.run actions).1
    let store := (start.run actions).2
    (∀ key, store.status = .connected → key ≠ "" → Lawful history store key) ∧
      history.filter (!·.action.isSweep)
        = (({ now, clockEnd } : Store).run (actions.filter (!·.isSweep))).1 := by
  intro start history store
  constructor
  · intro key hconn hkey
    have ht : Tracks history store := (Tracks.start rfl).run actions
    exact ht.lawful hconn hkey
  · have hal : Alike start { now, clockEnd } := ⟨rfl, rfl, rfl, fun _ _ _ => rfl⟩
    exact hal.run_filter actions

/-- The law on a short run: a lease is open over a jump of the clock and a sweep. -/
theorem answers_follow_history_job :
    let start : Store := { sweepInterval := some (.ofMillis 3) }
    let actions : List Action :=
      [.connect, .call (.tryAcquire "job" (.ofMillis 5)), .jump (.ofMillis 4), .sweep]
    let store := (start.run actions).2
    store.status = .connected ∧ "job" ≠ "" ∧ Lawful (start.run actions).1 store "job" := by
  refine ⟨by decide +kernel, by decide, ?_⟩
  exact (answers_follow_history 0 lastInstant (some (.ofMillis 3)) _).1 "job"
    (by decide +kernel) (by decide)

end KeyLease.Memory
