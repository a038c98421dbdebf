import KeyLease.Proofs.Memory.Run

set_option autoImplicit false

/-!
# Stores that hold the same keys of one kind

What a memory store answers about a key depends on the leases of that key alone. So two stores that
hold the same of the keys of some kind, now and as time passes, are told apart by no call about such
a key: that is `AlikeOn.perform`. They may differ in all other keys, in what they have kept of
leases that have expired, and in their sweeps.
-/

namespace KeyLease

/-- The key that a call is about. -/
def Call.key? : Call → Option String
  | .tryAcquire key _ | .release key | .exists key => some key
  | .check _ => none

namespace Memory

/-- Two stores that hold the same of the keys in `K`, now and as time passes. -/
structure AlikeOn (K : String → Prop) (s s' : Store) : Prop where
  now : s.now = s'.now
  clockEnd : s.clockEnd = s'.clockEnd
  status : s.status = s'.status
  isLive : ∀ t key, K key → s.now ≤ t → s.leases.isLive t key = s'.leases.isLive t key

namespace AlikeOn

variable {K : String → Prop} {s s' : Store}

theorem refl (K : String → Prop) (s : Store) : AlikeOn K s s :=
  ⟨rfl, rfl, rfl, fun _ _ _ _ => rfl⟩

/-- However they sweep, the stores stay alike if time passes alike for both. -/
theorem later (hal : AlikeOn K s s') {u u' : Store} (hu : Later s u) (hu' : Later s' u')
    (hnow : u.now = u'.now) : AlikeOn K u u' := by
  refine ⟨hnow, ?_, ?_, ?_⟩
  · rw [hu.clockEnd, hu'.clockEnd, hal.clockEnd]
  · rw [hu.status, hu'.status, hal.status]
  · intro t key hkey hle
    rw [hu.isLive hle, hu'.isLive (hnow ▸ hle),
      hal.isLive t key hkey (Nat.le_trans hu.now_le hle)]

theorem isLive_now (hal : AlikeOn K s s') {key : String} (hkey : K key) :
    s.leases.isLive s.now key = s'.leases.isLive s'.now key := by
  rw [hal.isLive s.now key hkey (Nat.le_refl _), hal.now]

theorem insert (hal : AlikeOn K s s') (key : String) (expiry : Nat) :
    AlikeOn K { s with leases := s.leases.insert key expiry }
      { s' with leases := s'.leases.insert key expiry } := by
  refine ⟨hal.now, hal.clockEnd, hal.status, fun t k hk hle => ?_⟩
  rw [Leases.isLive_insert, Leases.isLive_insert, hal.isLive t k hk hle]

theorem erase (hal : AlikeOn K s s') (key : String) :
    AlikeOn K { s with leases := s.leases.erase key }
      { s' with leases := s'.leases.erase key } := by
  refine ⟨hal.now, hal.clockEnd, hal.status, fun t k hk hle => ?_⟩
  rw [Leases.isLive_erase, Leases.isLive_erase, hal.isLive t k hk hle]

theorem tryAcquire (hal : AlikeOn K s s') {key : String} (hkey : key ≠ "" → K key)
    (ttl : Duration) :
    (s.tryAcquire key ttl).1 = (s'.tryAcquire key ttl).1 ∧
      AlikeOn K (s.tryAcquire key ttl).2 (s'.tryAcquire key ttl).2 := by
  rcases s with ⟨now, clockEnd, status, leases, interval, sweeper⟩
  rcases s' with ⟨now', clockEnd', status', leases', interval', sweeper'⟩
  obtain rfl : now = now' := hal.now
  obtain rfl : clockEnd = clockEnd' := hal.clockEnd
  obtain rfl : status = status' := hal.status
  -- What is checked first is the same for both; then only liveness is asked, and set alike.
  unfold Store.tryAcquire
  cases hk : ensureKey key with
  | error e => exact ⟨rfl, hal⟩
  | ok _ =>
      have hlive : leases.isLive now key = leases'.isLive now key :=
        hal.isLive_now (hkey (ensureKey_eq_ok_iff.mp hk))
      cases ensureTtl ttl with
      | error e => exact ⟨rfl, hal⟩
      | ok _ =>
          cases status.ensureConnected with
          | error e => exact ⟨rfl, hal⟩
          | ok _ =>
              by_cases hclock : now + ttl.nanos ≤ clockEnd
              · simp only [Store.expiryAfter?, hclock, if_true, Leases.acquire, hlive]
                cases leases'.isLive now key with
                | true => exact ⟨rfl, hal⟩
                | false => exact ⟨rfl, hal.insert key _⟩
              · simp only [Store.expiryAfter?, hclock, if_false]
                exact ⟨trivial, hal⟩

theorem release (hal : AlikeOn K s s') {key : String} (hkey : key ≠ "" → K key) :
    (s.release key).1 = (s'.release key).1 ∧
      AlikeOn K (s.release key).2 (s'.release key).2 := by
  rcases s with ⟨now, clockEnd, status, leases, interval, sweeper⟩
  rcases s' with ⟨now', clockEnd', status', leases', interval', sweeper'⟩
  obtain rfl : status = status' := hal.status
  unfold Store.release
  cases hk : ensureKey key with
  | error e => exact ⟨rfl, hal⟩
  | ok _ =>
      cases status.ensureConnected with
      | error e => exact ⟨rfl, hal⟩
      | ok _ =>
          have hlive := hal.isLive_now (hkey (ensureKey_eq_ok_iff.mp hk))
          exact ⟨congrArg Except.ok hlive, hal.erase key⟩

/-- A call about a key in `K` to both stores: it is answered alike. -/
theorem perform (hal : AlikeOn K s s') {c : Call}
    (hc : ∀ key, c.key? = some key → key ≠ "" → K key) :
    (s.perform c).1 = (s'.perform c).1 ∧ AlikeOn K (s.perform c).2 (s'.perform c).2 := by
  cases c with
  | tryAcquire key ttl => exact hal.tryAcquire (hc key rfl) ttl
  | release key => exact hal.release (hc key rfl)
  | «exists» key =>
      refine ⟨?_, hal⟩
      by_cases hne : key = ""
      · subst hne
        rfl
      · simp only [Store.perform, Store.exists?, hal.status, hal.isLive_now (hc key rfl hne)]
  | check probe =>
      refine ⟨?_, hal⟩
      simp only [Store.perform, hal.status]

end AlikeOn

end Memory

end KeyLease
