import KeyLease.Proofs.Log
import KeyLease.Proofs.Memory.Calls

set_option autoImplicit false

/-!
# Runs of a memory store

A run is any sequence of what clients do to one memory store and of what happens to it: sweeps,
asked for or in the background, and moves of the clock. A run leaves a history, an entry for each
action with the time at which it was done and what came of it.

`act_effect` says once what one action can do to the leases: it leaves them, sweeps them at some
instant of its own duration, grants a lease, gives one back or closes the session. All that is
proved about runs is proved over these five cases.
-/

namespace KeyLease

/-! ## Sweeps -/

theorem Leases.ext {a b : Leases} (h : a.toList = b.toList) : a = b := by
  rcases a with ⟨as, _⟩
  rcases b with ⟨bs, _⟩
  cases h
  rfl

/-- After a later sweep an earlier one makes no difference. -/
theorem Leases.sweep_sweep (ls : Leases) {t t' : Nat} (hle : t ≤ t') :
    (ls.sweep t).sweep t' = ls.sweep t' := by
  apply Leases.ext
  simp only [sweep, filter, List.filter_filter]
  apply List.filter_congr
  intro l _
  by_cases h : t' < l.2
  · simp [h, Nat.lt_of_le_of_lt hle h]
  · simp [h]

namespace Memory

/-! ## Actions and histories -/

/-- What is done to a memory store, or happens to it. -/
inductive Action
  | connect
  | disconnect
  | call (c : Call)
  /-- A sweep that a client asks for. -/
  | sweep
  /-- The background sweep handles the ticks that are due. -/
  | tick
  /-- The clock moves, and no tick is handled yet. -/
  | drift (d : Duration)
  /-- The clock moves in one step, and ticks are handled late. -/
  | jump (d : Duration)
  /-- Time passes, and every tick is handled when its timer goes off. -/
  | pass (d : Duration)

/-- What comes of an action. -/
inductive Outcome
  | session (r : Except Failure Unit)
  | answer (a : Answer)
  | removed (n : Nat)
  | silent

/-- One action: the outcome and the store after it. -/
def Store.act (s : Store) (a : Action) : Outcome × Store :=
  match a with
  | .connect => (.session s.connect.1, s.connect.2)
  | .disconnect => (.session s.disconnect.1, s.disconnect.2)
  | .call c => (.answer (s.perform c).1, (s.perform c).2)
  | .sweep => (.removed s.sweep.1, s.sweep.2)
  | .tick => (.silent, s.tick)
  | .drift d => (.silent, { s with now := s.now + d.nanos })
  | .jump d => (.silent, s.jump d)
  | .pass d => (.silent, s.pass d)

/-- What was done, when, and what came of it. -/
structure Entry where
  time : Nat
  action : Action
  outcome : Outcome

/-- The entry that an action leaves. -/
def Store.entry (s : Store) (a : Action) : Entry := ⟨s.now, a, (s.act a).1⟩

/-- A run: its history and the store after it. -/
def Store.run (s : Store) : List Action → List Entry × Store
  | [] => ([], s)
  | a :: rest =>
      let (history, last) := (s.act a).2.run rest
      (s.entry a :: history, last)

/-! ## The leases that a history grants -/

namespace Entry

/-- When the lease of a key expires that the action was granted, if it was granted one. -/
def granted? (e : Entry) (key : String) : Option Nat :=
  match e.action, e.outcome with
  | .call (.tryAcquire k ttl), .answer (.ok true) =>
      if k = key then some (e.time + ttl.nanos) else none
  | _, _ => none

/-- Whether the action ends all leases of a key: a release of the key that was carried out, or a
disconnect that succeeded. -/
def ends (e : Entry) (key : String) : Bool :=
  match e.action, e.outcome with
  | .call (.release k), .answer (.ok _) => k = key
  | .disconnect, .session (.ok ()) => true
  | _, _ => false

/-- An action that grants no lease and ends none. -/
structure Quiet (e : Entry) : Prop where
  granted : ∀ key, e.granted? key = none
  ends : ∀ key, e.ends key = false

end Entry

/-- The `i`-th action of a history was granted a lease of `key` until `expiry`, and that lease is
open at the instant `now`: it has not expired, the key has not been released since, and the session
has not been closed since. -/
structure OpenLease (h : List Entry) (now : Nat) (key : String) (i expiry : Nat) : Prop where
  granted : h[i]?.bind (·.granted? key) = some expiry
  unexpired : now < expiry
  kept : ∀ j e, i < j → h[j]? = some e → e.ends key = false

/-- Some lease of the key is open. -/
def Held (h : List Entry) (now : Nat) (key : String) : Prop :=
  ∃ i expiry, OpenLease h now key i expiry

theorem OpenLease.lt_length {h : List Entry} {now i expiry : Nat} {key : String}
    (ho : OpenLease h now key i expiry) : i < h.length := Log.lt_length_of_bind ho.granted

/-- As time passes fewer leases are open. -/
theorem OpenLease.earlier {h : List Entry} {now later i expiry : Nat} {key : String}
    (ho : OpenLease h later key i expiry) (hle : now ≤ later) : OpenLease h now key i expiry :=
  ⟨ho.granted, Nat.lt_of_le_of_lt hle ho.unexpired, ho.kept⟩

/-- One more entry opens the lease that it grants, and leaves the leases open that it does not
end. -/
theorem openLease_snoc {h : List Entry} {e : Entry} {now i expiry : Nat} {key : String} :
    OpenLease (h ++ [e]) now key i expiry ↔
      (i = h.length ∧ e.granted? key = some expiry ∧ now < expiry) ∨
        (OpenLease h now key i expiry ∧ e.ends key = false) := by
  have hopen (l : List Entry) : OpenLease l now key i expiry ↔
      (l[i]?.bind (·.granted? key) = some expiry ∧
        ∀ j e, i < j → l[j]? = some e → e.ends key = false) ∧ now < expiry :=
    ⟨fun ho => ⟨⟨ho.granted, ho.kept⟩, ho.unexpired⟩, fun ho => ⟨ho.1.1, ho.2, ho.1.2⟩⟩
  rw [hopen, hopen, Log.since_snoc, or_and_right, and_assoc, and_right_comm]

theorem Entry.Quiet.openLease_snoc_iff {h : List Entry} {e : Entry} (hq : e.Quiet)
    {now i expiry : Nat} {key : String} :
    OpenLease (h ++ [e]) now key i expiry ↔ OpenLease h now key i expiry := by
  rw [openLease_snoc]
  simp [hq.granted key, hq.ends key]

/-! ## What one action can do -/

/-- What an action can do to the leases of a store. -/
inductive Effect (s : Store) (e : Entry) (s' : Store) : Prop
  /-- Nothing, though the clock may move. -/
  | idle (quiet : e.Quiet) (now_le : s.now ≤ s'.now) (leases : s'.leases = s.leases)
  /-- A sweep at an instant of the action. -/
  | swept (t : Nat) (quiet : e.Quiet) (now_le : s.now ≤ t) (le_now : t ≤ s'.now)
      (leases : s'.leases = s.leases.sweep t)
  /-- A free key is granted. -/
  | granted (key : String) (expiry : Nat)
      (grants : ∀ k, e.granted? k = if key = k then some expiry else none)
      (ends : ∀ k, e.ends k = false) (now_eq : s'.now = s.now)
      (free : s.leases.isLive s.now key = false) (later : s.now < expiry)
      (leases : s'.leases = s.leases.insert key expiry)
  /-- A key is given back. -/
  | released (key : String) (grants : ∀ k, e.granted? k = none)
      (ends : ∀ k, e.ends k = decide (key = k)) (now_eq : s'.now = s.now)
      (leases : s'.leases = s.leases.erase key)
  /-- The session is closed. -/
  | closed (grants : ∀ k, e.granted? k = none) (ends : ∀ k, e.ends k = true)
      (now_eq : s'.now = s.now) (leases : s'.leases = {})

/-! ## Time and sweeps -/

/-- Nothing but time and sweeps lies between two states of a store. Several sweeps amount to the
last of them. -/
structure Later (s s' : Store) : Prop where
  now_le : s.now ≤ s'.now
  status : s'.status = s.status
  clockEnd : s'.clockEnd = s.clockEnd
  sweepInterval : s'.sweepInterval = s.sweepInterval
  leases : s'.leases = s.leases ∨
    ∃ t, s.now ≤ t ∧ t ≤ s'.now ∧ s'.leases = s.leases.sweep t

theorem Later.refl (s : Store) : Later s s := ⟨Nat.le_refl _, rfl, rfl, rfl, Or.inl rfl⟩

theorem Later.trans {s u v : Store} (h : Later s u) (h' : Later u v) : Later s v := by
  refine ⟨Nat.le_trans h.now_le h'.now_le, h'.status.trans h.status,
    h'.clockEnd.trans h.clockEnd, h'.sweepInterval.trans h.sweepInterval, ?_⟩
  have hle := h.now_le
  have hle' := h'.now_le
  rcases h'.leases with hv | ⟨t', hut, htv, hv⟩
  · rcases h.leases with hu | ⟨t, hst, htu, hu⟩
    · exact Or.inl (hv.trans hu)
    · exact Or.inr ⟨t, hst, Nat.le_trans htu hle', hv.trans hu⟩
  · -- The last sweep undoes the difference that an earlier one has made.
    rcases h.leases with hu | ⟨t, hst, htu, hu⟩
    · exact Or.inr ⟨t', Nat.le_trans hle hut, htv, by rw [hv, hu]⟩
    · refine Or.inr ⟨t', Nat.le_trans hle hut, htv, ?_⟩
      rw [hv, hu, Leases.sweep_sweep _ (Nat.le_trans htu hut)]

/-- Sweeps change nothing that can be told from then on. -/
theorem Later.isLive {s s' : Store} (h : Later s s') {t : Nat} (hle : s'.now ≤ t) {key : String} :
    s'.leases.isLive t key = s.leases.isLive t key := by
  rcases h.leases with hls | ⟨r, -, hr, hls⟩
  · rw [hls]
  · rw [hls, Leases.isLive_sweep _ (Nat.le_trans hr hle)]

theorem later_of_clock (s : Store) {now : Nat} (hle : s.now ≤ now) : Later s { s with now } :=
  ⟨hle, rfl, rfl, rfl, Or.inl rfl⟩

theorem later_sweep (s : Store) (sweeper : Option Sweeper) :
    Later s { s with leases := s.leases.sweep s.now, sweeper } :=
  ⟨Nat.le_refl _, rfl, rfl, rfl, Or.inr ⟨s.now, Nat.le_refl _, Nat.le_refl _, rfl⟩⟩

theorem later_tick (s : Store) : Later s s.tick := by
  unfold Store.tick
  split
  · exact Later.refl s
  · split
    · exact later_sweep s _
    · exact Later.refl s

theorem later_jump (s : Store) (d : Duration) : Later s (s.jump d) :=
  (later_of_clock s (Nat.le_add_right _ _)).trans (later_tick _)

theorem later_sleepUntil (s : Store) (target : Nat) : Later s (s.sleepUntil target) := by
  fun_induction Store.sleepUntil target s with
  | case1 s hs => exact later_of_clock s (Nat.le_max_left _ _)
  | case2 s sweeper hs hle now ih =>
      -- The clock comes to the next tick, the tick is handled, and the sleep goes on from there.
      have hclock : Later s { s with now } := later_of_clock s (Nat.le_max_left _ _)
      exact (hclock.trans (later_sweep _ _)).trans ih
  | case3 s sweeper hs hgt => exact later_of_clock s (Nat.le_max_left _ _)

theorem Store.tick_now (s : Store) : s.tick.now = s.now := by
  unfold Store.tick
  split
  · rfl
  · split <;> rfl

/-- A tick that is due sweeps, and the next is due later. -/
theorem Store.tick_of_due {s : Store} {sweeper : Sweeper} (hs : s.sweeper = some sweeper)
    (hdue : sweeper.due ≤ s.now) :
    s.tick
      = { s with leases := s.leases.sweep s.now, sweeper := some (sweeper.handled s.now) } := by
  simp only [tick, hs, if_pos hdue, sweep]

theorem Store.sleepUntil_now (s : Store) (target : Nat) :
    (s.sleepUntil target).now = max s.now target := by
  fun_induction Store.sleepUntil target s with
  | case1 s hs => rfl
  | case2 s sweeper hs hle now ih =>
      rw [ih]
      simp only
      omega
  | case3 s sweeper hs hgt => rfl

/-! ## Effects -/

theorem Effect.of_eq {s s' : Store} {e : Entry} (hq : e.Quiet) (h : s' = s) : Effect s e s' :=
  .idle hq (Nat.le_of_eq (by rw [h])) (by rw [h])

theorem Effect.of_later {s s' : Store} {e : Entry} (hq : e.Quiet) (h : Later s s') :
    Effect s e s' := by
  rcases h.leases with hls | ⟨t, hle, hle', hls⟩
  · exact .idle hq h.now_le hls
  · exact .swept t hq hle hle' hls

/-- A call that is refused is quiet. -/
theorem Entry.quiet_of_error {s : Store} {c : Call} {e : Failure}
    (h : (s.perform c).1 = .error e) : (s.entry (.call c)).Quiet := by
  constructor
  · intro key
    simp only [granted?, Store.entry, Store.act, h]
  · intro key
    simp only [ends, Store.entry, Store.act, h]

theorem tryAcquire_effect (s : Store) (key : String) (ttl : Duration) :
    Effect s (s.entry (.call (.tryAcquire key ttl))) (s.tryAcquire key ttl).2 := by
  rcases s.tryAcquire_cases key ttl with ⟨e, he⟩ | ⟨hconn, hkey, hacc⟩
  · have hq := Entry.quiet_of_error (s := s) (c := .tryAcquire key ttl) (congrArg Prod.fst he)
    exact .of_eq hq (congrArg Prod.snd he)
  · -- An accepted request is quiet if it is denied, and else it grants the key.
    cases hlive : s.leases.isLive s.now key with
    | true =>
        have hres := Store.tryAcquire_of_isLive hconn hkey hacc hlive
        refine .of_eq ⟨fun k => ?_, fun k => ?_⟩ (congrArg Prod.snd hres)
        · simp only [Entry.granted?, Store.entry, Store.act, Store.perform, hres]
        · simp only [Entry.ends, Store.entry, Store.act, Store.perform, hres]
    | false =>
        have hres := Store.tryAcquire_of_not_isLive hconn hkey hacc hlive
        have hlater : s.now < s.now + ttl.nanos := Nat.lt_add_of_pos_right hacc.pos
        refine .granted key (s.now + ttl.nanos) (fun k => ?_) (fun k => ?_) ?_ hlive hlater ?_
        · simp only [Entry.granted?, Store.entry, Store.act, Store.perform, hres]
        · simp only [Entry.ends, Store.entry, Store.act, Store.perform, hres]
        · rw [hres]
        · rw [hres]

theorem release_effect (s : Store) (key : String) :
    Effect s (s.entry (.call (.release key))) (s.release key).2 := by
  rcases s.release_cases key with ⟨e, he⟩ | ⟨hconn, hkey⟩
  · have hq := Entry.quiet_of_error (s := s) (c := .release key) (congrArg Prod.fst he)
    exact .of_eq hq (congrArg Prod.snd he)
  · have hres := Store.release_of_connected hconn hkey
    refine .released key (fun k => ?_) (fun k => ?_) ?_ ?_
    · simp only [Entry.granted?, Store.entry]
    · simp only [Entry.ends, Store.entry, Store.act, Store.perform, hres]
    · rw [hres]
    · rw [hres]

theorem disconnect_effect (s : Store) : Effect s (s.entry .disconnect) s.disconnect.2 := by
  rcases s.disconnect_cases with ⟨hres, -⟩ | ⟨-, hres⟩
  · refine .of_eq ⟨fun k => rfl, fun k => ?_⟩ (congrArg Prod.snd hres)
    simp only [Entry.ends, Store.entry, Store.act, hres]
  · refine .closed (fun k => rfl) (fun k => ?_) ?_ ?_
    · simp only [Entry.ends, Store.entry, Store.act, hres]
    · rw [hres]
    · rw [hres]

/-- What each action can do. -/
theorem act_effect (s : Store) (a : Action) : Effect s (s.entry a) (s.act a).2 := by
  cases a with
  | connect =>
      have hq : (s.entry .connect).Quiet := ⟨fun k => rfl, fun k => rfl⟩
      rcases s.connect_cases with ⟨hres, -⟩ | ⟨-, hres⟩
      · exact .of_eq hq (congrArg Prod.snd hres)
      · refine .idle hq ?_ ?_
        · simp [Store.act, hres]
        · simp [Store.act, hres]
  | disconnect => exact disconnect_effect s
  | call c =>
      cases c with
      | tryAcquire key ttl => exact tryAcquire_effect s key ttl
      | release key => exact release_effect s key
      | «exists» key => exact .of_eq ⟨fun k => rfl, fun k => rfl⟩ rfl
      | check probe => exact .of_eq ⟨fun k => rfl, fun k => rfl⟩ rfl
  | sweep => exact .of_later ⟨fun k => rfl, fun k => rfl⟩ (later_sweep s s.sweeper)
  | tick => exact .of_later ⟨fun k => rfl, fun k => rfl⟩ (later_tick s)
  | drift d =>
      exact .of_later ⟨fun k => rfl, fun k => rfl⟩ (later_of_clock s (Nat.le_add_right _ _))
  | jump d => exact .of_later ⟨fun k => rfl, fun k => rfl⟩ (later_jump s d)
  | pass d => exact .of_later ⟨fun k => rfl, fun k => rfl⟩ (later_sleepUntil s _)

end Memory

end KeyLease
