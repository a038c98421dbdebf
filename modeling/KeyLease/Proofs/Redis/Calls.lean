import KeyLease.Proofs.Redis.Openings

set_option autoImplicit false

/-!
# The calls of a Redis store, cut at the wire

A call of a Redis store either is answered before anything is sent, or sends one command and is
answered by what comes back for it within the limit of the store. `Store.dispatch` is the first
half of a call and `Query.settle` the second. `perform_of_settled` and `perform_of_sent` say that
the two halves are the whole call, so that other clients, delays and losses can be put between
them.
-/

namespace KeyLease.Redis

/-- A command under way: what its failures are called, and what its caller makes of the reply that
comes back in time, or of none. -/
structure Query where
  verb : Verb
  command : Command
  settle : Option Reply → Answer

/-- What becomes of a call before anything comes back. -/
inductive Dispatch
  | settled (a : Answer)
  | sent (q : Query)

namespace Store

/-- The answer of a call that asks whether a key is there: no also where that cannot be told. -/
def assumeAbsent (a : Answer) : Answer := .ok (a.toOption.getD false)

/-- The first half of a call. -/
def dispatch (s : Store) : Call → Dispatch
  | .tryAcquire key ttl =>
      match ensureKey key, ensureTtl ttl, s.pool, pxMillis ttl with
      | .error e, _, _, _ => .settled (.error e)
      | _, .error e, _, _ => .settled (.error e)
      | _, _, none, _ => .settled (.error .notConnected)
      | _, _, _, .error e => .settled (.error e)
      | .ok (), .ok (), some _, .ok px =>
          .sent ⟨.setNxPx, .setNxPx key px, judge .setNxPx s.opTimeout Reply.wasSet⟩
  | .release key =>
      match ensureKey key, s.pool with
      | .error e, _ => .settled (.error e)
      | _, none => .settled (.error .notConnected)
      | .ok (), some _ => .sent ⟨.del, .del key, judge .del s.opTimeout Reply.anyKey⟩
  | .exists key =>
      match ensureKey key, s.pool with
      | .ok (), some _ =>
          .sent ⟨.exists, .exists key,
            fun r => assumeAbsent (judge .exists s.opTimeout Reply.anyKey r)⟩
      | _, _ => .settled (.ok false)
  | .check _ =>
      match s.status, s.pool with
      | .connected, some _ => .sent ⟨.ping, .ping, judge .ping s.opTimeout Reply.isAlive⟩
      | .connected, none => .settled (.error .notConnected)
      | status, _ => .settled ((status.health (.ok ())).map fun () => true)

/-! ## The two halves are the whole -/

/-- A call that is answered before anything is sent leaves the store as it is. -/
theorem perform_of_settled {s : Store} {c : Call} {a : Answer}
    (h : s.dispatch c = .settled a) : s.perform c = (a, s) := by
  cases c with
  | tryAcquire key ttl =>
      simp only [dispatch, perform, tryAcquire] at h ⊢
      split at h <;> simp_all
  | release key =>
      simp only [dispatch, perform, release] at h ⊢
      split at h <;> simp_all
  | «exists» key =>
      simp only [dispatch, perform, exists?] at h ⊢
      split at h <;> simp_all
  | check probe =>
      simp only [dispatch, perform, check, ping] at h ⊢
      cases hst : s.status <;> cases hpool : s.pool <;> simp_all

/-- A call that sends a command makes its answer of what comes back for it. -/
theorem perform_of_sent {s : Store} {c : Call} {q : Query} (h : s.dispatch c = .sent q) :
    ∃ pool, s.pool = some pool ∧
      s.perform c = (q.settle (s.send pool q.command).1, (s.send pool q.command).2) := by
  cases c with
  | tryAcquire key ttl =>
      simp only [dispatch, perform, tryAcquire] at h ⊢
      split at h <;> simp_all [exchange_eq]
      simp [← h]
  | release key =>
      simp only [dispatch, perform, release] at h ⊢
      split at h <;> simp_all [exchange_eq]
      simp [← h]
  | «exists» key =>
      simp only [dispatch, perform, exists?] at h ⊢
      split at h <;> simp_all [exchange_eq]
      simp [← h, assumeAbsent]
  | check probe =>
      simp only [dispatch, perform, check, ping] at h ⊢
      split at h <;> simp_all [exchange_eq]
      simp [← h]

/-! ## What acquiring and releasing send -/

/-- An attempt to acquire that sends a command sends one SET with the milliseconds of its time to
live. -/
theorem tryAcquire_of_sent {s : Store} {key : String} {ttl : Duration} {q : Query}
    (h : s.dispatch (.tryAcquire key ttl) = .sent q) :
    ∃ px, pxMillis ttl = .ok px ∧
      q = ⟨.setNxPx, .setNxPx key px, judge .setNxPx s.opTimeout Reply.wasSet⟩ := by
  simp only [dispatch] at h
  split at h <;> simp_all

theorem release_of_sent {s : Store} {key : String} {q : Query}
    (h : s.dispatch (.release key) = .sent q) :
    q = ⟨.del, .del key, judge .del s.opTimeout Reply.anyKey⟩ := by
  simp only [dispatch] at h
  split at h <;> simp_all

/-- An attempt to acquire that sends nothing has failed. -/
theorem tryAcquire_of_settled {s : Store} {key : String} {ttl : Duration} {a : Answer}
    (h : s.dispatch (.tryAcquire key ttl) = .settled a) : ∃ e, a = .error e := by
  simp only [dispatch] at h
  split at h <;> cases h <;> exact ⟨_, rfl⟩

end Store

/-- Every PX is positive, so that no key is set for no time. -/
theorem pxMillis_pos {ttl : Duration} {px : Nat} (h : pxMillis ttl = .ok px) : 0 < px := by
  unfold pxMillis at h
  split at h
  · simp only [Except.ok.injEq] at h
    omega
  · cases h

end KeyLease.Redis
