import KeyLease.Memory.Store

set_option autoImplicit false

/-!
# The calls of a memory store, case by case

Every call judges its arguments and the connection before it looks at the leases. For each
operation one lemma says what it does once it is let through (`tryAcquire_of_accepts`,
`release_of_connected`), and one says all that it can do at all (`tryAcquire_cases`,
`release_cases`): it is refused and changes nothing, or it was let through. Whatever is proved
about runs of a store goes through these lemmas and never unfolds an operation again.
-/

namespace KeyLease

/-! ## What is checked before anything is done -/

theorem ensureKey_eq_ok_iff {key : String} : ensureKey key = .ok () ↔ key ≠ "" := by
  unfold ensureKey
  by_cases h : key = ""
  · simp [h]
  · simp [h]

theorem ensureTtl_eq_ok_iff {ttl : Duration} :
    ensureTtl ttl = .ok () ↔ 0 < ttl.nanos ∧ ttl.nanos ≤ maxTtl.nanos := by
  unfold ensureTtl
  by_cases hzero : ttl = .zero
  · simp [hzero, Duration.zero]
  · have hpos : 0 < ttl.nanos := by
      rcases ttl with ⟨n⟩
      exact Nat.pos_of_ne_zero fun h => hzero (congrArg Duration.mk h)
    by_cases hmax : maxTtl < ttl
    · have hlt : maxTtl.nanos < ttl.nanos := hmax
      rw [if_neg hzero, if_pos hmax]
      simp only [reduceCtorEq, false_iff]
      omega
    · have hle : ttl.nanos ≤ maxTtl.nanos := Nat.le_of_not_lt hmax
      simp [hzero, hmax, hpos, hle]

theorem Status.ensureConnected_eq_ok_iff {s : Status} :
    s.ensureConnected = .ok () ↔ s = .connected := by
  cases s <;> simp [Status.ensureConnected]

namespace Memory.Store

/-- The times to live that a store accepts at present: those within the bounds of every store whose
end the clock can name. -/
def Accepts (s : Store) (ttl : Duration) : Prop :=
  ensureTtl ttl = .ok () ∧ s.now + ttl.nanos ≤ s.clockEnd

theorem Accepts.pos {s : Store} {ttl : Duration} (h : s.Accepts ttl) : 0 < ttl.nanos :=
  (ensureTtl_eq_ok_iff.mp h.1).1

/-! ## Acquiring -/

theorem tryAcquire_of_accepts {s : Store} {key : String} {ttl : Duration}
    (hconn : s.status = .connected) (hkey : key ≠ "") (hacc : s.Accepts ttl) :
    s.tryAcquire key ttl
      = (.ok (s.leases.acquire s.now key (s.now + ttl.nanos)).1,
          { s with leases := (s.leases.acquire s.now key (s.now + ttl.nanos)).2 }) := by
  have hexp : s.expiryAfter? ttl = some (s.now + ttl.nanos) := if_pos hacc.2
  have hst : s.status.ensureConnected = .ok () := Status.ensureConnected_eq_ok_iff.mpr hconn
  simp only [tryAcquire, ensureKey_eq_ok_iff.mpr hkey, hacc.1, hst, hexp]

/-- A refused request leaves the store as it is; only an accepted one looks at the leases. -/
theorem tryAcquire_cases (s : Store) (key : String) (ttl : Duration) :
    (∃ e, s.tryAcquire key ttl = (.error e, s)) ∨
      (s.status = .connected ∧ key ≠ "" ∧ s.Accepts ttl) := by
  unfold tryAcquire
  cases hkey : ensureKey key with
  | error e => exact Or.inl ⟨e, rfl⟩
  | ok _ =>
      cases httl : ensureTtl ttl with
      | error e => exact Or.inl ⟨e, rfl⟩
      | ok _ =>
          cases hst : s.status.ensureConnected with
          | error e => exact Or.inl ⟨e, rfl⟩
          | ok _ =>
              by_cases hclock : s.now + ttl.nanos ≤ s.clockEnd
              · exact Or.inr ⟨Status.ensureConnected_eq_ok_iff.mp hst,
                  ensureKey_eq_ok_iff.mp hkey, httl, hclock⟩
              · refine Or.inl ⟨.configInvalid (.ttlBeyondClock ttl), ?_⟩
                simp [expiryAfter?, hclock]

/-- On a key that is held, an accepted request is denied and changes nothing. -/
theorem tryAcquire_of_isLive {s : Store} {key : String} {ttl : Duration}
    (hconn : s.status = .connected) (hkey : key ≠ "") (hacc : s.Accepts ttl)
    (hlive : s.leases.isLive s.now key = true) : s.tryAcquire key ttl = (.ok false, s) := by
  rw [tryAcquire_of_accepts hconn hkey hacc, Leases.acquire, if_pos hlive]

/-- On a key that is free, an accepted request sets its lease. -/
theorem tryAcquire_of_not_isLive {s : Store} {key : String} {ttl : Duration}
    (hconn : s.status = .connected) (hkey : key ≠ "") (hacc : s.Accepts ttl)
    (hfree : s.leases.isLive s.now key = false) :
    s.tryAcquire key ttl
      = (.ok true, { s with leases := s.leases.insert key (s.now + ttl.nanos) }) := by
  rw [tryAcquire_of_accepts hconn hkey hacc, Leases.acquire, if_neg (by simp [hfree])]

/-! ## Releasing and asking -/

theorem release_of_connected {s : Store} {key : String} (hconn : s.status = .connected)
    (hkey : key ≠ "") :
    s.release key
      = (.ok (s.leases.isLive s.now key), { s with leases := s.leases.erase key }) := by
  have hst : s.status.ensureConnected = .ok () := Status.ensureConnected_eq_ok_iff.mpr hconn
  simp only [release, ensureKey_eq_ok_iff.mpr hkey, hst, Leases.release]

theorem release_cases (s : Store) (key : String) :
    (∃ e, s.release key = (.error e, s)) ∨ (s.status = .connected ∧ key ≠ "") := by
  unfold release
  cases hkey : ensureKey key with
  | error e => exact Or.inl ⟨e, rfl⟩
  | ok _ =>
      cases hst : s.status.ensureConnected with
      | error e => exact Or.inl ⟨e, rfl⟩
      | ok _ =>
          exact Or.inr ⟨Status.ensureConnected_eq_ok_iff.mp hst, ensureKey_eq_ok_iff.mp hkey⟩

theorem exists?_of_connected {s : Store} {key : String} (hconn : s.status = .connected)
    (hkey : key ≠ "") : s.exists? key = s.leases.isLive s.now key := by
  have hne : key.isEmpty = false := by simpa using hkey
  simp [exists?, hconn, hne]

/-! ## Sessions -/

theorem connect_cases (s : Store) :
    s.connect = (.error .alreadyConnected, s) ∧ s.status = .connected ∨
      s.status ≠ .connected ∧ s.connect
        = (.ok (), { s with
            status := .connected
            sweeper := s.sweepInterval.bind (Sweeper.start? · s.now) }) := by
  unfold connect
  rcases s with ⟨now, clockEnd, status, leases, interval, sweeper⟩
  cases status with
  | connected => exact Or.inl ⟨rfl, rfl⟩
  | uninitialized => exact Or.inr ⟨by simp, rfl⟩
  | disconnected => exact Or.inr ⟨by simp, rfl⟩

theorem disconnect_cases (s : Store) :
    s.disconnect = (.error .notConnected, s) ∧ s.status ≠ .connected ∨
      s.status = .connected ∧ s.disconnect
        = (.ok (), { s with status := .disconnected, sweeper := none, leases := {} }) := by
  unfold disconnect
  rcases s with ⟨now, clockEnd, status, leases, interval, sweeper⟩
  cases status with
  | connected => exact Or.inr ⟨rfl, rfl⟩
  | uninitialized => exact Or.inl ⟨rfl, by simp⟩
  | disconnected => exact Or.inl ⟨rfl, by simp⟩

end Memory.Store

end KeyLease
