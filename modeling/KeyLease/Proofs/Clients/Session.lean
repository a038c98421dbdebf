import KeyLease.Proofs.Clients.Requests
import KeyLease.Proofs.Memory.History

set_option autoImplicit false

/-!
# Sessions that clients share

Any number of clients make requests to one memory store, in any order, and between the requests
the store sweeps and its clock moves. `Store.attend` is such a run. It leaves a record of each
event: what the client was told, and the entry that the store's own history has of it.

Every request comes down to one call, so the store's own history is that of a run of actions
(`Store.attend_entries`), and what is known of such runs is known of sessions: `Store.tracks` says
that the leases that lie ahead are those that the records have open.
-/

namespace KeyLease.Memory

/-! ## Events -/

/-- What happens between requests. -/
inductive Pause
  | sweep
  | tick
  | drift (d : Duration)
  | jump (d : Duration)
  | pass (d : Duration)

namespace Pause

/-- A pause as an action. -/
def action : Pause → Action
  | sweep => .sweep
  | tick => .tick
  | drift d => .drift d
  | jump d => .jump d
  | pass d => .pass d

/-- How long it takes. -/
def length : Pause → Duration
  | sweep | tick => .zero
  | drift d | jump d | pass d => d

end Pause

/-- What happens in a session. -/
inductive Event
  | request (r : ClientRequest)
  | pause (p : Pause)

namespace Event

/-- An event as an action. -/
def action : Event → Action
  | request r => .call r.call
  | pause p => p.action

/-- Whether an event is a request of some kind. -/
def asks (kind : ClientRequest → Bool) : Event → Bool
  | request r => kind r
  | pause _ => false

/-- Whether an event is a pause or a request of some kind. -/
def spares (kind : ClientRequest → Bool) : Event → Bool
  | request r => kind r
  | pause _ => true

end Event

namespace Store

/-! ## Runs -/

/-- One event: what the client is told, if one asked, and the store after it. -/
def serve (s : Store) : Event → Option Response × Store
  | .request r =>
      let (response, s) := r.script.run s
      (some response, s)
  | .pause p => (none, (s.act p.action).2)

end Store

/-- An event, what the client was told, and what the history of the store has of it. -/
structure Record where
  event : Event
  response : Option Response
  entry : Entry

namespace Record

/-- When the event was. -/
def time (r : Record) : Nat := r.entry.time

end Record

namespace Store

/-- The record of an event. -/
def record (s : Store) (e : Event) : Record := ⟨e, (s.serve e).1, s.entry e.action⟩

/-- A whole session: the records and the store after it. -/
def attend (s : Store) : List Event → List Record × Store
  | [] => ([], s)
  | e :: rest =>
      let (records, last) := (s.serve e).2.attend rest
      (s.record e :: records, last)

/-! ## One event -/

theorem later_pause (s : Store) (p : Pause) : Later s (s.act p.action).2 := by
  cases p with
  | sweep => exact later_sweep s s.sweeper
  | tick => exact later_tick s
  | drift d => exact later_of_clock s (Nat.le_add_right _ _)
  | jump d => exact later_jump s d
  | pass d => exact later_sleepUntil s _

theorem now_pause (s : Store) (p : Pause) :
    (s.act p.action).2.now = s.now + p.length.nanos := by
  cases p with
  | sweep => rfl
  | tick => exact s.tick_now
  | drift d => rfl
  | jump d => exact tick_now _
  | pass d =>
      have hmax : max s.now (s.now + d.nanos) = s.now + d.nanos := Nat.max_eq_right (by omega)
      exact (s.sleepUntil_now _).trans hmax

theorem run_lock (s : Store) (l : Locker) :
    l.lock.run s
      = (Answer.granted (.alreadyLocked (l.ns.stored l.rawKey))
            (s.perform (.tryAcquire (l.ns.stored l.rawKey) l.ttl)).1,
          (s.perform (.tryAcquire (l.ns.stored l.rawKey) l.ttl)).2) := by
  rw [Locker.lock_eq]
  exact Script.run_claim _ _ _ _ (s.turnsAwayEmptyKey.tryAcquire l.ttl)

theorem run_unlock (s : Store) (l : Locker) :
    l.unlock.run s
      = (Answer.granted (.notLocked (l.ns.stored l.rawKey))
            (s.perform (.release (l.ns.stored l.rawKey))).1,
          (s.perform (.release (l.ns.stored l.rawKey))).2) := by
  rw [Locker.unlock_eq]
  exact Script.run_claim _ _ _ _ s.turnsAwayEmptyKey.release

theorem run_isLocked (s : Store) (l : Locker) :
    l.isLocked.run s = (s.exists? (l.ns.stored l.rawKey), s) := by
  rw [Locker.isLocked_eq]
  exact Script.run_inquire _ _ s.turnsAwayEmptyKey.exists

theorem run_validate (s : Store) (g : AdmissionGuard) (rawKey : String) :
    (g.validate rawKey).run s
      = (Answer.granted (.conflict (g.ns.stored rawKey))
            (s.perform (.tryAcquire (g.ns.stored rawKey) g.ttl)).1,
          (s.perform (.tryAcquire (g.ns.stored rawKey) g.ttl)).2) := by
  rw [AdmissionGuard.validate_eq]
  exact Script.run_claim _ _ _ _ (s.turnsAwayEmptyKey.tryAcquire g.ttl)

theorem run_isAdmitted (s : Store) (g : AdmissionGuard) (rawKey : String) :
    (g.isAdmitted rawKey).run s = (s.exists? (g.ns.stored rawKey), s) := by
  rw [AdmissionGuard.isAdmitted_eq]
  exact Script.run_inquire _ _ s.turnsAwayEmptyKey.exists

theorem serve_request (s : Store) (r : ClientRequest) :
    s.serve (.request r) = (some (r.respond (s.perform r.call).1), (s.perform r.call).2) := by
  rw [serve, ClientRequest.run_script s.turnsAwayEmptyKey]
  rfl

theorem serve_action (s : Store) (e : Event) : (s.serve e).2 = (s.act e.action).2 := by
  cases e with
  | request r => rw [serve_request]; rfl
  | pause p => rfl

theorem perform_frame (s : Store) (c : Call) :
    (s.perform c).2.status = s.status ∧ (s.perform c).2.now = s.now ∧
      (s.perform c).2.clockEnd = s.clockEnd := by
  cases c with
  | tryAcquire key ttl =>
      rcases s.tryAcquire_cases key ttl with ⟨e, he⟩ | ⟨hconn, hkey, hacc⟩
      · rw [perform, he]
        exact ⟨rfl, rfl, rfl⟩
      · rw [perform, tryAcquire_of_accepts hconn hkey hacc]
        exact ⟨rfl, rfl, rfl⟩
  | release key =>
      rcases s.release_cases key with ⟨e, he⟩ | ⟨hconn, hkey⟩
      · rw [perform, he]
        exact ⟨rfl, rfl, rfl⟩
      · rw [perform, release_of_connected hconn hkey]
        exact ⟨rfl, rfl, rfl⟩
  | «exists» key => exact ⟨rfl, rfl, rfl⟩
  | check probe => exact ⟨rfl, rfl, rfl⟩

/-- A call leaves all keys alone that it is not about. -/
theorem expiry?_perform_of_ne (s : Store) {c : Call} {key : String} (hne : c.key? ≠ some key) :
    (s.perform c).2.leases.expiry? key = s.leases.expiry? key := by
  cases c with
  | tryAcquire k ttl =>
      have hk : key ≠ k := fun heq => hne (by rw [heq]; rfl)
      rcases s.tryAcquire_cases k ttl with ⟨e, he⟩ | ⟨hconn, hkey, hacc⟩
      · rw [perform, he]
      · rw [perform, tryAcquire_of_accepts hconn hkey hacc]
        simp only [Leases.acquire]
        split
        · rfl
        · rw [Leases.expiry?_insert, if_neg hk]
  | release k =>
      have hk : key ≠ k := fun heq => hne (by rw [heq]; rfl)
      rcases s.release_cases k with ⟨e, he⟩ | ⟨hconn, hkey⟩
      · rw [perform, he]
      · rw [perform, release_of_connected hconn hkey]
        simp only
        rw [Leases.expiry?_erase, if_neg hk]
  | «exists» k => rfl
  | check probe => rfl

theorem isLive_perform_of_ne (s : Store) {c : Call} {key : String} (hne : c.key? ≠ some key)
    (t : Nat) : (s.perform c).2.leases.isLive t key = s.leases.isLive t key := by
  simp only [Leases.isLive, s.expiry?_perform_of_ne hne]

/-- No event ends the session, and none turns the clock back. -/
theorem serve_frame (s : Store) (e : Event) :
    (s.serve e).2.status = s.status ∧ s.now ≤ (s.serve e).2.now := by
  cases e with
  | request r =>
      obtain ⟨hstatus, hnow, -⟩ := s.perform_frame r.call
      rw [serve_request]
      exact ⟨hstatus, Nat.le_of_eq hnow.symm⟩
  | pause p =>
      have hlater := s.later_pause p
      exact ⟨hlater.status, hlater.now_le⟩

/-! ## Whole sessions -/

theorem attend_frame (s : Store) (es : List Event) :
    (s.attend es).2.status = s.status ∧ s.now ≤ (s.attend es).2.now := by
  induction es generalizing s with
  | nil => exact ⟨rfl, Nat.le_refl _⟩
  | cons e es ih =>
      obtain ⟨hstatus, hnow⟩ := s.serve_frame e
      obtain ⟨hstatus', hnow'⟩ := ih (s.serve e).2
      exact ⟨hstatus'.trans hstatus, Nat.le_trans hnow hnow'⟩

/-- The records of a part of a session. -/
theorem attend_take (s : Store) (es : List Event) (j : Nat) :
    (s.attend (es.take j)).1 = (s.attend es).1.take j := by
  induction es generalizing s j with
  | nil => simp only [List.take_nil, attend]
  | cons e es ih =>
      cases j with
      | zero => rfl
      | succ j => simp only [List.take_succ_cons, attend, ih]

/-- Each record is that of an event, on the store as it was by then. -/
theorem attend_getElem? (s : Store) (es : List Event) (i : Nat) :
    (s.attend es).1[i]? = es[i]?.map (s.attend (es.take i)).2.record := by
  induction es generalizing s i with
  | nil => rfl
  | cons e es ih =>
      cases i with
      | zero => rfl
      | succ i => exact ih (s.serve e).2 i

theorem record_of_getElem? {s : Store} {es : List Event} {i : Nat} {r : Record}
    (h : (s.attend es).1[i]? = some r) :
    ∃ e, es[i]? = some e ∧ r = (s.attend (es.take i)).2.record e := by
  rw [attend_getElem?] at h
  obtain ⟨e, he, hr⟩ := Option.map_eq_some_iff.mp h
  exact ⟨e, he, hr.symm⟩

/-- Each entry of the store's own history is that of a record. -/
theorem entry_of_getElem? {s : Store} {es : List Event} {i : Nat} {entry : Entry}
    (h : ((s.attend es).1.map (·.entry))[i]? = some entry) :
    ∃ e, es[i]? = some e ∧ (s.attend es).1[i]? = some ((s.attend (es.take i)).2.record e) ∧
      entry = ((s.attend (es.take i)).2.record e).entry := by
  rw [List.getElem?_map] at h
  obtain ⟨r, hr, rfl⟩ := Option.map_eq_some_iff.mp h
  obtain ⟨e, he, rfl⟩ := record_of_getElem? hr
  exact ⟨e, he, hr, rfl⟩

/-- By the end of a session the clock shows no less than at any event of it. -/
theorem now_take_le (s : Store) (es : List Event) (j : Nat) :
    (s.attend (es.take j)).2.now ≤ (s.attend es).2.now := by
  induction es generalizing s j with
  | nil => simp only [List.take_nil, Nat.le_refl]
  | cons e es ih =>
      cases j with
      | zero => exact (s.attend_frame (e :: es)).2
      | succ j => exact ih (s.serve e).2 j

/-! ## The store's own history -/

/-- The entries of a session are the history of a run of actions, which leaves the same store. -/
theorem attend_entries (s : Store) (es : List Event) :
    s.run (es.map Event.action) = ((s.attend es).1.map (·.entry), (s.attend es).2) := by
  induction es generalizing s with
  | nil => rfl
  | cons e es ih =>
      simp only [List.map_cons, run, attend, ← serve_action, ih]
      rfl

/-- In a session that begins with nothing leased, the leases that lie ahead are those that the
records have open. -/
theorem tracks {s : Store} (hempty : s.leases = {}) (es : List Event) :
    Tracks ((s.attend es).1.map (·.entry)) (s.attend es).2 := by
  have ht := (Tracks.start hempty).run (es.map Event.action)
  rwa [List.nil_append, attend_entries] at ht

/-- An event is granted a key if it comes down to an attempt to acquire it that succeeds. -/
theorem granted?_record {s : Store} {e : Event} {key : String} {expiry : Nat} :
    (s.record e).entry.granted? key = some expiry ↔
      ∃ r ttl, e = .request r ∧ r.call = .tryAcquire key ttl ∧
        (s.perform r.call).1 = .ok true ∧ expiry = s.now + ttl.nanos := by
  cases e with
  | request r =>
      simp only [record, entry, Event.action, act, Entry.granted?]
      cases hcall : r.call with
      | tryAcquire k ttl =>
          rcases hres : (s.perform (.tryAcquire k ttl)).1 with err | (_ | _)
          · simp [hcall, hres]
          · simp [hcall, hres]
          · by_cases hk : k = key
            · subst hk
              simp [hcall, hres, eq_comm]
            · simp [hcall, hk]
      | release k => simp [hcall]
      | «exists» k => simp [hcall]
      | check probe => simp [hcall]
  | pause p => cases p <;> simp [record, entry, Event.action, Pause.action, Entry.granted?]

/-- An event ends the leases of a key if it comes down to a release of it that is carried out. -/
theorem ends_record {s : Store} {e : Event} {key : String} :
    (s.record e).entry.ends key = true ↔
      ∃ r held, e = .request r ∧ r.call = .release key ∧ (s.perform r.call).1 = .ok held := by
  cases e with
  | request r =>
      simp only [record, entry, Event.action, act, Entry.ends]
      cases hcall : r.call with
      | release k =>
          rcases hres : (s.perform (.release k)).1 with err | held
          · simp [hcall, hres]
          · by_cases hk : k = key
            · subst hk
              simp [hcall, hres]
            · simp [hcall, hk]
      | tryAcquire k ttl => simp [hcall]
      | «exists» k => simp [hcall]
      | check probe => simp [hcall]
  | pause p => cases p <;> simp [record, entry, Event.action, Pause.action, Entry.ends]

end Store

end KeyLease.Memory
