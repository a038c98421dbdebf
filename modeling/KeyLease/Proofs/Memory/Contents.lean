import Mathlib.Data.Set.Card
import KeyLease.Proofs.Memory.Run

set_option autoImplicit false

/-!
# What is in the table

What a client can tell of a memory store is what is held. The table holds more: a lease that has
expired stays in it until its key is acquired anew or released, or until a sweep comes by. This
module says what is in the table exactly, to the entry: `contents_exact`.

It depends on the sweeps, also on those in the background, so a run is taken apart into moves, each
of which sweeps at most once (`Store.dissect`). A move leaves a page, which has the entry of the
history and the instant of its sweep. What one move does to the expiry of a key can be read off its
page (`expiry?_move`), and so what a whole run leaves of it (`Kept`).
-/

namespace KeyLease

/-! ## Counting leases -/

namespace Leases

/-- As many leases pass a test as there are keys whose lease passes it. -/
theorem size_filter (ls : Leases) (p : String × Nat → Bool) :
    (ls.filter p).size = {key | ∃ expiry, (key, expiry) ∈ ls.toList ∧ p (key, expiry)}.ncard := by
  have hkeys : {key | ∃ expiry, (key, expiry) ∈ ls.toList ∧ p (key, expiry)}
      = ((ls.filter p).toList.map (·.1)).toFinset := by
    ext key
    simp [filter]
  rw [hkeys, Set.ncard_coe_finset, List.toFinset_card_of_nodup (ls.filter p).distinct,
    List.length_map, size]

/-- There are as many leases as keys. -/
theorem size_eq_ncard (ls : Leases) :
    ls.size = {key | ∃ expiry, (key, expiry) ∈ ls.toList}.ncard := by
  have hall := ls.size_filter fun _ => true
  simpa [filter, size] using hall

/-- A sweep makes the table smaller by the number of the expired leases. -/
theorem size_sub_size_sweep (ls : Leases) (now : Nat) :
    ls.size - (ls.sweep now).size
      = {key | ∃ expiry, (key, expiry) ∈ ls.toList ∧ expiry ≤ now}.ncard := by
  have hsplit := ls.toList.length_eq_length_filter_add fun l => decide (now < l.2)
  have hexpired := ls.size_filter fun l => !decide (now < l.2)
  simp only [Bool.not_eq_true', decide_eq_false_iff_not, Nat.not_lt] at hexpired
  rw [← hexpired]
  simp only [size, sweep, filter] at hsplit ⊢
  omega

end Leases

namespace Memory

/-! ## Moves -/

/-- An action that sweeps at most once, and only at the instant it is done. -/
inductive Move
  | connect
  | disconnect
  | call (c : Call)
  | sweep
  | tick
  | drift (d : Duration)

/-- A move as an action. -/
def Move.action : Move → Action
  | connect => .connect
  | disconnect => .disconnect
  | call c => .call c
  | sweep => .sweep
  | tick => .tick
  | drift d => .drift d

/-- What a history has of a move, and the instant of the sweep if it swept. -/
structure Page extends Entry where
  swept? : Option Nat

namespace Store

/-- When a move sweeps, if it does: a sweep that is asked for always does, a tick if it is due. -/
def sweeps? (s : Store) : Move → Option Nat
  | .sweep => some s.now
  | .tick => if s.sweeper.any (·.due ≤ s.now) then some s.now else none
  | .connect | .disconnect | .call _ | .drift _ => none

/-- The page that a move leaves. -/
def page (s : Store) (m : Move) : Page := { s.entry m.action with swept? := s.sweeps? m }

/-- A run of moves: the pages and the store after it. -/
def follow (s : Store) : List Move → List Page × Store
  | [] => ([], s)
  | m :: rest =>
      let (pages, last) := (s.act m.action).2.follow rest
      (s.page m :: pages, last)

/-! ## Runs taken apart -/

/-- When the timer of a tick goes off the tick is handled, in a sweep. -/
theorem tick_at_wakes {s : Store} {sweeper : Sweeper} (hs : s.sweeper = some sweeper) :
    { s with now := max s.now sweeper.wakes }.tick =
      { s with now := max s.now sweeper.wakes
               leases := s.leases.sweep (max s.now sweeper.wakes)
               sweeper := some (sweeper.handled (max s.now sweeper.wakes)) } := by
  have hdue : sweeper.due ≤ max s.now sweeper.wakes :=
    Nat.le_trans sweeper.due_le_wakes (Nat.le_max_right _ _)
  exact tick_of_due (s := { s with now := max s.now sweeper.wakes }) hs hdue

/-- How much of a sleep is left after the instant at which the next tick is due. -/
def ahead (target : Nat) (s : Store) : Nat :=
  match s.sweeper with
  | none => 0
  | some sweeper => target + 1 - sweeper.due

/-- Less is left after each tick: it is due when its timer goes off, and the next one after that. -/
theorem ahead_tick_lt {s : Store} {sweeper : Sweeper} (hs : s.sweeper = some sweeper) {target : Nat}
    (hle : sweeper.wakes ≤ target) :
    ahead target { s with now := max s.now sweeper.wakes }.tick < s.ahead target := by
  have hdue := sweeper.due_le_wakes
  have hnext := sweeper.lt_due_handled (max s.now sweeper.wakes)
  have hnow : sweeper.wakes ≤ max s.now sweeper.wakes := Nat.le_max_right _ _
  rw [tick_at_wakes hs]
  simp only [ahead, hs]
  omega

/-- The moves of a sleep: the clock moves to the next tick and the tick is handled, as long as there
is one before the sleep is over. -/
def naps (target : Nat) (s : Store) : List Move :=
  match _running : s.sweeper with
  | none => [.drift ⟨target - s.now⟩]
  | some sweeper =>
      if _awake : sweeper.wakes ≤ target then
        .drift ⟨sweeper.wakes - s.now⟩ :: .tick
          :: naps target { s with now := max s.now sweeper.wakes }.tick
      else [.drift ⟨target - s.now⟩]
termination_by s.ahead target
decreasing_by exact ahead_tick_lt _running _awake

/-- The moves of an action. -/
def moves (s : Store) : Action → List Move
  | .connect => [.connect]
  | .disconnect => [.disconnect]
  | .call c => [.call c]
  | .sweep => [.sweep]
  | .tick => [.tick]
  | .drift d => [.drift d]
  | .jump d => [.drift d, .tick]
  | .pass d => s.naps (s.now + d.nanos)

/-- The moves of a run. -/
def dissect (s : Store) : List Action → List Move
  | [] => []
  | a :: rest => s.moves a ++ (s.act a).2.dissect rest

theorem follow_append (s : Store) (before after : List Move) :
    (s.follow (before ++ after)).2 = ((s.follow before).2.follow after).2 := by
  induction before generalizing s with
  | nil => rfl
  | cons m rest ih => exact ih (s.act m.action).2

theorem drift_to (s : Store) (target : Nat) :
    (s.act (.drift ⟨target - s.now⟩)).2 = { s with now := max s.now target } := by
  have hnow : s.now + (target - s.now) = max s.now target := by omega
  simp only [act, hnow]

theorem sleepUntil_of_none {s : Store} (hs : s.sweeper = none) (target : Nat) :
    s.sleepUntil target = { s with now := max s.now target } := by
  rw [sleepUntil]
  split
  · rfl
  · rename_i sweeper hsome
    cases hs.symm.trans hsome

theorem sleepUntil_of_some {s : Store} {sweeper : Sweeper} (hs : s.sweeper = some sweeper)
    (target : Nat) :
    s.sleepUntil target =
      if sweeper.wakes ≤ target then
        { s with now := max s.now sweeper.wakes }.tick.sleepUntil target
      else { s with now := max s.now target } := by
  rw [tick_at_wakes hs, sleepUntil]
  split
  · rename_i hnone
    cases hs.symm.trans hnone
  · rename_i other hsome
    obtain rfl : sweeper = other := Option.some.inj (hs.symm.trans hsome)
    rfl

/-- A sleep comes of its moves. -/
theorem follow_naps (s : Store) (target : Nat) :
    (s.follow (s.naps target)).2 = s.sleepUntil target := by
  fun_induction naps target s with
  | case1 s hs =>
      rw [sleepUntil_of_none hs]
      exact s.drift_to target
  | case2 s sweeper hs hle ih =>
      rw [sleepUntil_of_some hs, if_pos hle, ← ih, ← s.drift_to sweeper.wakes]
      rfl
  | case3 s sweeper hs hgt =>
      rw [sleepUntil_of_some hs, if_neg hgt]
      exact s.drift_to target

/-- An action comes of its moves. -/
theorem follow_moves (s : Store) (a : Action) : (s.follow (s.moves a)).2 = (s.act a).2 := by
  cases a with
  | pass d => exact s.follow_naps _
  | connect => rfl
  | disconnect => rfl
  | call c => rfl
  | sweep => rfl
  | tick => rfl
  | drift d => rfl
  | jump d => rfl

/-- A run comes of its moves. -/
theorem follow_dissect (s : Store) (actions : List Action) :
    (s.follow (s.dissect actions)).2 = (s.run actions).2 := by
  induction actions generalizing s with
  | nil => rfl
  | cons a rest ih => rw [dissect, follow_append, follow_moves, ih, run]

end Store

/-! ## What one move leaves -/

namespace Page

/-- The move leaves the lease of a key alone: it does not grant the key anew or give it back, closes
no session, and comes before the expiry if it sweeps. -/
structure Spares (p : Page) (key : String) (expiry : Nat) : Prop where
  granted : p.granted? key = none
  ends : p.ends key = false
  swept : ∀ t, p.swept? = some t → t < expiry

/-- The expiry of a key in the table after a move, by the one before. -/
def after (p : Page) (key : String) (before : Option Nat) : Option Nat :=
  match p.granted? key with
  | some expiry => some expiry
  | none =>
      if p.ends key then none else before.filter fun expiry => p.swept?.all (· < expiry)

theorem after_eq_some_iff {p : Page} {key : String} {before : Option Nat} {expiry : Nat} :
    p.after key before = some expiry ↔
      p.granted? key = some expiry ∨ (before = some expiry ∧ p.Spares key expiry) := by
  unfold after
  cases hgranted : p.granted? key with
  | some other =>
      have hnot : ¬ p.Spares key expiry := fun h => by cases hgranted.symm.trans h.granted
      simp [hnot]
  | none =>
      cases hends : p.ends key with
      | true =>
          have hnot : ¬ p.Spares key expiry := fun h => by cases hends.symm.trans h.ends
          simp [hnot]
      | false =>
          have hspares : p.Spares key expiry ↔ ∀ t, p.swept? = some t → t < expiry :=
            ⟨Spares.swept, fun h => ⟨hgranted, hends, h⟩⟩
          simp [hspares, Option.filter_eq_some_iff, Option.all_eq_true]

section

variable {p : Page} {key : String} (before : Option Nat)

theorem after_of_granted {expiry : Nat} (hgranted : p.granted? key = some expiry) :
    p.after key before = some expiry := by
  simp only [after, hgranted]

theorem after_of_ends (hgranted : p.granted? key = none) (hends : p.ends key = true) :
    p.after key before = none := by
  simp only [after, hgranted, hends, if_true]

theorem after_of_swept {t : Nat} (hgranted : p.granted? key = none) (hends : p.ends key = false)
    (hswept : p.swept? = some t) : p.after key before = before.filter (t < ·) := by
  simp only [after, hgranted, hends, hswept, Option.all_some, Bool.false_eq_true, if_false]

/-- A move that does nothing about the key. -/
theorem after_of_none (hgranted : p.granted? key = none) (hends : p.ends key = false)
    (hswept : p.swept? = none) : p.after key before = before := by
  simp only [after, hgranted, hends, hswept]
  cases before <;> rfl

end

end Page

namespace Store

/-- A request for a key leaves it as it is, or grants it. -/
theorem expiry?_tryAcquire (s : Store) (k : String) (ttl : Duration) (key : String) :
    (s.tryAcquire k ttl).2.leases.expiry? key
      = (s.page (.call (.tryAcquire k ttl))).after key (s.leases.expiry? key) := by
  have hends : (s.page (.call (.tryAcquire k ttl))).ends key = false := rfl
  -- A request that is refused or denied changes nothing, and its page has no grant.
  rcases s.tryAcquire_cases k ttl with ⟨e, he⟩ | ⟨hconn, hkey, hacc⟩
  · have hq := Entry.quiet_of_error (s := s) (c := .tryAcquire k ttl) (congrArg Prod.fst he)
    rw [he]
    exact (Page.after_of_none _ (hq.granted key) hends rfl).symm
  · cases hlive : s.leases.isLive s.now k with
    | true =>
        have hres := tryAcquire_of_isLive hconn hkey hacc hlive
        have hgranted : (s.page (.call (.tryAcquire k ttl))).granted? key = none := by
          simp only [Entry.granted?, page, entry, Move.action, act, perform, hres]
        rw [hres]
        exact (Page.after_of_none _ hgranted hends rfl).symm
    | false =>
        have hres := tryAcquire_of_not_isLive hconn hkey hacc hlive
        have hgranted : (s.page (.call (.tryAcquire k ttl))).granted? key
            = if k = key then some (s.now + ttl.nanos) else none := by
          simp only [Entry.granted?, page, entry, Move.action, act, perform, hres]
        rw [hres, Leases.expiry?_insert]
        by_cases hk : key = k
        · subst hk
          rw [if_pos rfl] at hgranted ⊢
          exact (Page.after_of_granted _ hgranted).symm
        · rw [if_neg fun heq => hk heq.symm] at hgranted
          rw [if_neg hk]
          exact (Page.after_of_none _ hgranted hends rfl).symm

/-- A key that is given back is gone, and no other. -/
theorem expiry?_release (s : Store) (k key : String) :
    (s.release k).2.leases.expiry? key
      = (s.page (.call (.release k))).after key (s.leases.expiry? key) := by
  have hgranted : (s.page (.call (.release k))).granted? key = none := rfl
  rcases s.release_cases k with ⟨e, he⟩ | ⟨hconn, hkey⟩
  · have hq := Entry.quiet_of_error (s := s) (c := .release k) (congrArg Prod.fst he)
    rw [he]
    exact (Page.after_of_none _ hgranted (hq.ends key) rfl).symm
  · have hres := release_of_connected hconn hkey
    have hends : (s.page (.call (.release k))).ends key = decide (k = key) := by
      simp only [Entry.ends, page, entry, Move.action, act, perform, hres]
    rw [hres, Leases.expiry?_erase]
    by_cases hk : key = k
    · rw [if_pos hk]
      exact (Page.after_of_ends _ hgranted (hends.trans (decide_eq_true hk.symm))).symm
    · have hne : ¬ k = key := fun heq => hk heq.symm
      rw [if_neg hk]
      exact (Page.after_of_none _ hgranted (hends.trans (decide_eq_false hne)) rfl).symm

/-- A connect changes nothing in the table. -/
theorem expiry?_connect (s : Store) (key : String) :
    s.connect.2.leases.expiry? key = (s.page .connect).after key (s.leases.expiry? key) := by
  rw [Page.after_of_none _ rfl rfl rfl]
  rcases s.connect_cases with ⟨hres, -⟩ | ⟨-, hres⟩
  · rw [hres]
  · rw [hres]

/-- A disconnect empties the table, if there is a session. -/
theorem expiry?_disconnect (s : Store) (key : String) :
    s.disconnect.2.leases.expiry? key
      = (s.page .disconnect).after key (s.leases.expiry? key) := by
  have hgranted : (s.page .disconnect).granted? key = none := rfl
  rcases s.disconnect_cases with ⟨hres, -⟩ | ⟨-, hres⟩
  · have hends : (s.page .disconnect).ends key = false := by
      simp only [Entry.ends, page, entry, Move.action, act, hres]
    rw [hres, Page.after_of_none _ hgranted hends rfl]
  · have hends : (s.page .disconnect).ends key = true := by
      simp only [Entry.ends, page, entry, Move.action, act, hres]
    rw [hres, Page.after_of_ends _ hgranted hends]
    rfl

/-- A tick that is due sweeps, and any other does nothing. -/
theorem tick_cases (s : Store) :
    s.sweeps? .tick = some s.now ∧ s.tick.leases = s.leases.sweep s.now ∨
      s.sweeps? .tick = none ∧ s.tick = s := by
  cases hs : s.sweeper with
  | none =>
      refine Or.inr ⟨?_, ?_⟩
      · simp only [sweeps?, hs, Option.any_none, Bool.false_eq_true, if_false]
      · simp only [tick, hs]
  | some sweeper =>
      by_cases hdue : sweeper.due ≤ s.now
      · refine Or.inl ⟨?_, ?_⟩
        · simp only [sweeps?, hs, Option.any_some, hdue, decide_true, if_true]
        · rw [tick_of_due hs hdue]
      · refine Or.inr ⟨?_, ?_⟩
        · simp only [sweeps?, hs, Option.any_some, hdue, decide_false, Bool.false_eq_true, if_false]
        · simp only [tick, hs, hdue, if_false]

/-- A move that sweeps is the sweep of the store at its instant. -/
theorem leases_of_sweeps {s : Store} {m : Move} {t : Nat} (h : s.sweeps? m = some t) :
    t = s.now ∧ (s.act m.action).2.leases = s.sweep.2.leases := by
  cases m with
  | sweep => exact ⟨(Option.some.inj h).symm, rfl⟩
  | tick =>
      rcases s.tick_cases with ⟨hnow, hleases⟩ | ⟨hnone, -⟩
      · exact ⟨Option.some.inj (h.symm.trans hnow), hleases⟩
      · cases hnone.symm.trans h
  | connect => cases h
  | disconnect => cases h
  | call c => cases h
  | drift d => cases h

/-- What a move leaves of the expiry of a key is told by its page. -/
theorem expiry?_move (s : Store) (m : Move) (key : String) :
    (s.act m.action).2.leases.expiry? key = (s.page m).after key (s.leases.expiry? key) := by
  cases m with
  | connect => exact s.expiry?_connect key
  | disconnect => exact s.expiry?_disconnect key
  | call c =>
      cases c with
      | tryAcquire k ttl => exact s.expiry?_tryAcquire k ttl key
      | release k => exact s.expiry?_release k key
      | «exists» k => exact (Page.after_of_none _ rfl rfl rfl).symm
      | check probe => exact (Page.after_of_none _ rfl rfl rfl).symm
  | sweep =>
      rw [Page.after_of_swept _ rfl rfl rfl]
      exact Leases.expiry?_sweep _ _ _
  | tick =>
      rcases s.tick_cases with ⟨hnow, hleases⟩ | ⟨hnone, hsame⟩
      · rw [Page.after_of_swept _ rfl rfl hnow, ← Leases.expiry?_sweep, ← hleases]
        rfl
      · rw [Page.after_of_none _ rfl rfl hnone]
        exact congrArg (fun s : Store => s.leases.expiry? key) hsame
  | drift d => exact (Page.after_of_none _ rfl rfl rfl).symm

end Store

/-! ## What a run leaves -/

/-- The `i`-th page grants `key` until `expiry`, and no page since has taken anything of that: the
key has not been granted anew or given back, the session has not been closed, and every sweep was
before the expiry. -/
structure Kept (pages : List Page) (key : String) (i expiry : Nat) : Prop where
  granted : pages[i]?.bind (·.granted? key) = some expiry
  spared : ∀ j p, i < j → pages[j]? = some p → p.Spares key expiry

/-- One more page keeps what it grants, and what it spares. -/
theorem kept_snoc {pages : List Page} {p : Page} {key : String} {i expiry : Nat} :
    Kept (pages ++ [p]) key i expiry ↔
      (i = pages.length ∧ p.granted? key = some expiry) ∨
        (Kept pages key i expiry ∧ p.Spares key expiry) := by
  have hkept (l : List Page) : Kept l key i expiry ↔
      l[i]?.bind (·.granted? key) = some expiry ∧
        ∀ j p, i < j → l[j]? = some p → p.Spares key expiry :=
    ⟨fun h => ⟨h.granted, h.spared⟩, fun h => ⟨h.1, h.2⟩⟩
  rw [hkept, hkept, Log.since_snoc]

/-- The table has the leases that the pages keep. -/
def Recorded (pages : List Page) (s : Store) : Prop :=
  ∀ key expiry, s.leases.expiry? key = some expiry ↔ ∃ i, Kept pages key i expiry

namespace Recorded

variable {pages : List Page} {s : Store}

theorem start (hempty : s.leases = {}) : Recorded [] s := by
  intro key expiry
  have hnone : ¬ ∃ i, Kept [] key i expiry := by
    rintro ⟨i, h⟩
    exact absurd (Log.lt_length_of_bind h.granted) (Nat.not_lt_zero i)
  simp [hempty, hnone]

/-- One move more. -/
theorem move (h : Recorded pages s) (m : Move) :
    Recorded (pages ++ [s.page m]) (s.act m.action).2 := by
  intro key expiry
  calc (s.act m.action).2.leases.expiry? key = some expiry
      ↔ (s.page m).granted? key = some expiry ∨
          (s.leases.expiry? key = some expiry ∧ (s.page m).Spares key expiry) := by
        rw [s.expiry?_move, Page.after_eq_some_iff]
    _ ↔ (s.page m).granted? key = some expiry ∨
          ((∃ i, Kept pages key i expiry) ∧ (s.page m).Spares key expiry) := by
        rw [h key expiry]
    _ ↔ ∃ i, Kept (pages ++ [s.page m]) key i expiry := by
        simp only [kept_snoc, exists_or, exists_and_right, exists_eq, true_and]

/-- A whole run. -/
theorem follow (h : Recorded pages s) (moves : List Move) :
    Recorded (pages ++ (s.follow moves).1) (s.follow moves).2 := by
  induction moves generalizing pages s with
  | nil => rwa [Store.follow, List.append_nil]
  | cons m rest ih =>
      have hrest := ih (h.move m)
      rwa [List.append_assoc] at hrest

end Recorded

/-- **What is in the table.** Take any moves of a store that is new, over any number of sessions.
The table has every key at most once. It has a key with an expiry exactly if the latest request that
was granted the key set that expiry, and since then the key has not been given back, the session has
not been closed and no sweep has come at the expiry or after it. The size of the table is the number
of these keys. A sweep now returns the number of those that have expired by now, and takes them and
no others; whatever move sweeps, in the background or not, does that. And every run of the store
comes of such moves. -/
theorem contents_exact (now clockEnd : Nat) (sweepInterval : Option Duration) :
    let first : Store := { now, clockEnd, sweepInterval }
    (∀ moves, let pages := (first.follow moves).1
      let s := (first.follow moves).2
      (s.leases.toList.map (·.1)).Nodup ∧
      (∀ key expiry, (key, expiry) ∈ s.leases.toList ↔ ∃ i, Kept pages key i expiry) ∧
      s.leases.size = {key | ∃ i expiry, Kept pages key i expiry}.ncard ∧
      s.sweep.1 = {key | ∃ i expiry, Kept pages key i expiry ∧ expiry ≤ s.now}.ncard ∧
      (∀ key expiry, (key, expiry) ∈ s.sweep.2.leases.toList ↔
        (key, expiry) ∈ s.leases.toList ∧ s.now < expiry) ∧
      ∀ m t, s.sweeps? m = some t →
        t = s.now ∧ (s.act m.action).2.leases = s.sweep.2.leases) ∧
    ∀ actions, (first.follow (first.dissect actions)).2 = (first.run actions).2 := by
  intro first
  refine ⟨?_, first.follow_dissect⟩
  intro moves pages s
  have hholds : Recorded pages s := (Recorded.start rfl).follow moves
  have hmem (key : String) (expiry : Nat) :
      (key, expiry) ∈ s.leases.toList ↔ ∃ i, Kept pages key i expiry :=
    Leases.expiry?_eq_some_iff.symm.trans (hholds key expiry)
  have hkeys : {key | ∃ expiry, (key, expiry) ∈ s.leases.toList}
      = {key | ∃ i expiry, Kept pages key i expiry} := by
    ext key
    simp only [hmem, Set.mem_ofPred_eq]
    exact exists_comm
  have hexpired : {key | ∃ expiry, (key, expiry) ∈ s.leases.toList ∧ expiry ≤ s.now}
      = {key | ∃ i expiry, Kept pages key i expiry ∧ expiry ≤ s.now} := by
    ext key
    simp only [hmem, Set.mem_ofPred_eq, ← exists_and_right]
    exact exists_comm
  refine ⟨s.leases.distinct, hmem, ?_, ?_, fun key expiry => ?_, fun m t => Store.leases_of_sweeps⟩
  · rw [s.leases.size_eq_ncard, hkeys]
  · calc s.sweep.1 = s.leases.size - (s.leases.sweep s.now).size := rfl
      _ = _ := by rw [s.leases.size_sub_size_sweep, hexpired]
  · simp only [Store.sweep, Leases.sweep, Leases.filter, List.mem_filter, decide_eq_true_eq]

/-- A lease that has expired is not held, but it is in the table until a sweep takes it. -/
example :
    let moves : List Move :=
      [.connect, .call (.tryAcquire "a" (.ofMillis 5)), .drift (.ofMillis 5)]
    let s := (({} : Store).follow moves).2
    s.exists? "a" = false ∧ s.leases.toList = [("a", 5000000)] ∧ s.sweep.1 = 1 := by
  decide +kernel

end Memory

end KeyLease
