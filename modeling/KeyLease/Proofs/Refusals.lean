import Mathlib.Tactic.SplitIfs
import KeyLease.Proofs.Redis.Serving

set_option autoImplicit false

/-!
# What every store refuses

Some calls are answered by what they ask for and by whether the store is connected, and by nothing
else: those about the empty key, those for a time to live that is out of bounds, and those on a
store that is not connected. `Call.refusal?` is that answer. Both stores give it, and nothing comes
of the call (`Memory.Store.perform_of_refusal`, `Redis.Store.Coherent.atOnce_of_refusal`). For every
other call about a key a Redis store sends its one command (`Redis.Store.Coherent.dispatch_eq`).
-/

namespace KeyLease

/-- The answer to a call that is refused. An empty key comes before a time to live that is out of
bounds, and that before a store that is not connected; of a key that may not be asked about it is
said that it is not there. Health is always told. -/
def Call.refusal? (status : Status) : Call → Option Answer
  | .tryAcquire key ttl =>
      if key = "" then some (.error .keyEmpty)
      else if ttl = .zero then some (.error (.configInvalid .zeroTtl))
      else if maxTtl < ttl then some (.error (.configInvalid (.ttlTooLong ttl)))
      else if status ≠ .connected then some (.error .notConnected)
      else none
  | .release key =>
      if key = "" then some (.error .keyEmpty)
      else if status ≠ .connected then some (.error .notConnected)
      else none
  | .exists key => if key = "" ∨ status ≠ .connected then some (.ok false) else none
  | .check _ => none

/-! ## The checks, one after the other -/

theorem ensureKey_eq (key : String) :
    ensureKey key = if key = "" then .error .keyEmpty else .ok () := by
  simp [ensureKey]

theorem Status.ensureConnected_eq (status : Status) :
    status.ensureConnected = if status ≠ .connected then .error .notConnected else .ok () := by
  cases status <;> rfl

namespace Call

/-- The first of the checks that an attempt to acquire does not pass refuses it. -/
theorem refusal?_tryAcquire (status : Status) (key : String) (ttl : Duration) :
    (tryAcquire key ttl).refusal? status =
      match ensureKey key, ensureTtl ttl, status.ensureConnected with
      | .error e, _, _ => some (.error e)
      | _, .error e, _ => some (.error e)
      | _, _, .error e => some (.error e)
      | .ok (), .ok (), .ok () => none := by
  rw [ensureKey_eq, Status.ensureConnected_eq, ensureTtl, refusal?]
  split_ifs <;> rfl

theorem refusal?_release (status : Status) (key : String) :
    (release key).refusal? status =
      match ensureKey key, status.ensureConnected with
      | .error e, _ => some (.error e)
      | _, .error e => some (.error e)
      | .ok (), .ok () => none := by
  rw [ensureKey_eq, Status.ensureConnected_eq, refusal?]
  split_ifs <;> rfl

theorem refusal?_exists (status : Status) (key : String) :
    (Call.exists key).refusal? status =
      match ensureKey key, status.ensureConnected with
      | .ok (), .ok () => none
      | _, _ => some (.ok false) := by
  rw [ensureKey_eq, Status.ensureConnected_eq, refusal?]
  split_ifs <;> simp_all

/-- Without a connection every operation on a key is refused, for that reason if for no other. -/
theorem refusal?_of_unconnected {status : Status} (h : status ≠ .connected) (key : String)
    (ttl : Duration) :
    (∃ e, (tryAcquire key ttl).refusal? status = some (.error e) ∧
      (key ≠ "" → ensureTtl ttl = .ok () → e = .notConnected)) ∧
    (∃ e, (release key).refusal? status = some (.error e) ∧ (key ≠ "" → e = .notConnected)) ∧
    (Call.exists key).refusal? status = some (.ok false) := by
  refine ⟨?_, ?_, if_pos (Or.inr h)⟩
  · rw [refusal?_tryAcquire, Status.ensureConnected_eq, if_pos h]
    cases hkey : ensureKey key with
    | error e =>
        refine ⟨e, rfl, fun hne => ?_⟩
        cases hkey.symm.trans (ensureKey_eq_ok_iff.mpr hne)
    | ok _ =>
        cases httl : ensureTtl ttl with
        | error e => exact ⟨e, rfl, nofun⟩
        | ok _ => exact ⟨.notConnected, rfl, fun _ _ => rfl⟩
  · rw [refusal?, if_pos h]
    by_cases hkey : key = ""
    · exact ⟨.keyEmpty, if_pos hkey, fun hne => absurd hkey hne⟩
    · exact ⟨.notConnected, if_neg hkey, fun _ => rfl⟩

end Call

/-! ## Memory stores -/

/-- A memory store refuses what is to be refused, and is as it was. -/
theorem Memory.Store.perform_of_refusal {s : Memory.Store} {c : Call} {a : Answer}
    (h : c.refusal? s.status = some a) : s.perform c = (a, s) := by
  cases c with
  | tryAcquire key ttl =>
      rw [Call.refusal?_tryAcquire] at h
      simp only [perform, tryAcquire]
      split at h <;> simp_all
  | release key =>
      rw [Call.refusal?_release] at h
      simp only [perform, release]
      split at h <;> simp_all
  | «exists» key =>
      simp only [Call.refusal?, Option.ite_none_right_eq_some, Option.some.injEq] at h
      obtain ⟨hno, rfl⟩ := h
      rcases hno with rfl | hstatus
      · rfl
      · simp [perform, exists?, hstatus]
  | check probe => cases h

/-! ## Redis stores -/

namespace Redis

/-- The command of a call, as a store with a limit sends it. -/
def Query.ofCall (limit : Duration) : Call → Query
  | .tryAcquire key ttl =>
      ⟨.setNxPx, .setNxPx key (max ttl.wholeMillis 1), judge .setNxPx limit Reply.wasSet⟩
  | .release key => ⟨.del, .del key, judge .del limit Reply.anyKey⟩
  | .exists key =>
      ⟨.exists, .exists key, fun r => Store.assumeAbsent (judge .exists limit Reply.anyKey r)⟩
  | .check _ => ⟨.ping, .ping, judge .ping limit Reply.isAlive⟩

namespace Store

variable {s : Store}

/-- The store answers a call at once: it sends nothing and is as it was. -/
structure AtOnce (s : Store) (c : Call) (a : Answer) : Prop where
  unsent : s.dispatch c = .settled a
  performed : s.perform c = (a, s)

/-- A pool is there exactly if the store is connected. The operations on keys look at the pool, the
health checks at both. -/
def Coherent (s : Store) : Prop := s.pool.isSome ↔ s.status = .connected

theorem Coherent.pool_eq_none (h : s.Coherent) (hstatus : s.status ≠ .connected) :
    s.pool = none := by
  cases hpool : s.pool with
  | none => rfl
  | some pool => exact absurd (h.mp (by rw [hpool]; rfl)) hstatus

theorem Coherent.exists_pool (h : s.Coherent) (hstatus : s.status = .connected) :
    ∃ pool, s.pool = some pool := Option.isSome_iff_exists.mp (h.mpr hstatus)

/-- A call about a key is refused, or its command is sent. -/
theorem Coherent.dispatch_eq (h : s.Coherent) {c : Call} (hc : ∀ probe, c ≠ .check probe) :
    s.dispatch c =
      match c.refusal? s.status with
      | some a => .settled a
      | none => .sent (.ofCall s.opTimeout c) := by
  -- The pool takes the place of the check of the connection that other stores make.
  have hconn : s.status.ensureConnected =
      match s.pool with
      | some _ => .ok ()
      | none => .error .notConnected := by
    by_cases hstatus : s.status = .connected
    · obtain ⟨pool, hpool⟩ := h.exists_pool hstatus
      rw [hpool, hstatus]
      rfl
    · rw [h.pool_eq_none hstatus, Status.ensureConnected_eq, if_pos hstatus]
  cases c with
  | tryAcquire key ttl =>
      rw [Call.refusal?_tryAcquire, hconn, dispatch]
      cases ensureKey key <;> cases httl : ensureTtl ttl <;> cases s.pool <;>
        simp [pxMillis_of_accepted, httl, Query.ofCall]
  | release key =>
      rw [Call.refusal?_release, hconn, dispatch]
      cases ensureKey key <;> cases s.pool <;> rfl
  | «exists» key =>
      rw [Call.refusal?_exists, hconn, dispatch]
      cases ensureKey key <;> cases s.pool <;> rfl
  | check probe => exact absurd rfl (hc probe)

/-- A Redis store refuses at once what is to be refused. -/
theorem Coherent.atOnce_of_refusal (h : s.Coherent) {c : Call} {a : Answer}
    (hc : c.refusal? s.status = some a) : s.AtOnce c a := by
  have hd : s.dispatch c = .settled a := by
    rw [h.dispatch_eq, hc]
    rintro probe rfl
    cases hc
  exact ⟨hd, perform_of_settled hd⟩

end Store

end Redis

end KeyLease
