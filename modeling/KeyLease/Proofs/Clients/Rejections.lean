import KeyLease.Proofs.Clients.Interchange
import KeyLease.Proofs.Redis.Sessions

set_option autoImplicit false

/-!
# Requests that are rejected

A request is rejected if the call that it comes down to is refused by every store of that status
(`ClientRequest.rejection?`). Memory stores and Redis stores reject alike, and nothing comes of a
request that they reject: `rejections_alike`. A locker or an admission guard turns the empty raw key
away without asking its store at all (`Locker.turnsAway`, `AdmissionGuard.turnsAway`).
-/

namespace KeyLease

/-! ## Empty raw keys -/

/-- The requests of a locker for the empty raw key, of any namespace: they end before they have
begun. -/
theorem Locker.turnsAway {l : Locker} (h : l.rawKey = "") :
    l.lock = .done (.error .keyEmpty) ∧ l.unlock = .done (.error .keyEmpty) ∧
      l.isLocked = .done false := by
  have hkey : l.ns.key l.rawKey = .error .keyEmpty := by rw [h, Namespace.key_empty]
  rw [l.lock_eq, l.unlock_eq, l.isLocked_eq, hkey]
  exact ⟨rfl, rfl, rfl⟩

theorem AdmissionGuard.turnsAway (g : AdmissionGuard) :
    g.validate "" = .done (.error .keyEmpty) ∧ g.isAdmitted "" = .done false := by
  rw [g.validate_eq, g.isAdmitted_eq, Namespace.key_empty]
  exact ⟨rfl, rfl⟩

/-! ## Rejections -/

/-- What a client is told of a request that every store of a status rejects. -/
def ClientRequest.rejection? (status : Status) (q : ClientRequest) : Option Response :=
  (q.call.refusal? status).map q.respond

theorem ClientRequest.rejection?_eq_some_iff {status : Status} {q : ClientRequest}
    {told : Response} :
    q.rejection? status = some told ↔ ∃ a, q.call.refusal? status = some a ∧ q.respond a = told :=
  Option.map_eq_some_iff

/-- A memory store rejects what is to be rejected, and is as it was. -/
theorem Memory.Store.run_of_rejection {m : Memory.Store} {q : ClientRequest} {told : Response}
    (h : q.rejection? m.status = some told) : q.script.run m = (told, m) := by
  obtain ⟨a, hrefusal, rfl⟩ := ClientRequest.rejection?_eq_some_iff.mp h
  have hperform : LeaseStore.perform q.call m = (a, m) := perform_of_refusal hrefusal
  rw [q.run_script m.turnsAwayEmptyKey, hperform]

/-- A Redis store rejects what is to be rejected, sends nothing for it, and is as it was. -/
theorem Redis.Store.Coherent.run_of_rejection {r : Redis.Store} (hr : r.Coherent)
    {q : ClientRequest} {told : Response} (h : q.rejection? r.status = some told) :
    q.script.run r = (told, r) ∧ ∃ a, r.dispatch q.call = .settled a := by
  obtain ⟨a, hrefusal, rfl⟩ := ClientRequest.rejection?_eq_some_iff.mp h
  have honce := hr.atOnce_of_refusal hrefusal
  have hperform : LeaseStore.perform q.call r = (a, r) := honce.performed
  rw [q.run_script r.turnsAwayEmptyKey, hperform]
  exact ⟨rfl, a, honce.unsent⟩

/-- **Stores reject alike, and nothing comes of it.** Whatever has become of a memory store and of a
Redis store so far, each tells a client of a request that is to be rejected what is to be told, by
the request and by whether it is connected, and is as it was; the Redis store has sent nothing. An
empty raw key is turned away without asking any store. -/
theorem rejections_alike (m : Memory.Store) {r : Redis.Store} (hr : r.Reached) :
    (∀ (q : ClientRequest) told, q.rejection? m.status = some told →
      q.script.run m = (told, m)) ∧
    (∀ (q : ClientRequest) told, q.rejection? r.status = some told →
      q.script.run r = (told, r) ∧ ∃ a, r.dispatch q.call = .settled a) ∧
    (∀ l : Locker, l.rawKey = "" →
      l.lock = .done (.error .keyEmpty) ∧ l.unlock = .done (.error .keyEmpty) ∧
        l.isLocked = .done false) ∧
    ∀ g : AdmissionGuard,
      g.validate "" = .done (.error .keyEmpty) ∧ g.isAdmitted "" = .done false :=
  ⟨fun _ _ h => m.run_of_rejection h, fun _ _ h => hr.coherent.run_of_rejection h,
    fun _ h => Locker.turnsAway h, AdmissionGuard.turnsAway⟩

/-- A connected memory store, and a Redis store that has tried to connect where no server listens:
what is wrong with a request comes before that there is no connection. -/
theorem rejections_alike_connecting :
    let m : Memory.Store := { status := .connected }
    let address : Redis.Address := ⟨"redis", none, none, .named "localhost", 6379, none⟩
    let built : Redis.Store :=
      { address, endpoint := "redis://localhost:6379", opTimeout := .ofMillis 100 }
    let r := built.connect.2
    let long : Duration := .ofSeconds 31536001
    let wrong : List (ClientRequest × Response) :=
      [(.lock ⟨.locks, "", .zero⟩, .result (.error .keyEmpty)),
        (.direct (.tryAcquire "a" .zero), .answer (.error (.configInvalid .zeroTtl))),
        (.validate ⟨.admissions, long⟩ "a", .result (.error (.configInvalid (.ttlTooLong long)))),
        (.isAdmitted ⟨.admissions, long⟩ "", .flag false)]
    let early : List (ClientRequest × Response) :=
      [(.lock ⟨.locks, "a", maxTtl⟩, .result (.error .notConnected)),
        (.unlock ⟨.locks, "a", .zero⟩, .result (.error .notConnected)),
        (.isLocked ⟨.locks, "a", .zero⟩, .flag false)]
    r.Reached ∧ r.status ≠ .connected ∧
      (∀ q told, (q, told) ∈ wrong → q.script.run m = (told, m)) ∧
      (∀ q told, (q, told) ∈ wrong ++ early →
        q.script.run r = (told, r) ∧ ∃ a, r.dispatch q.call = .settled a) ∧
      (⟨.locks, "", .zero⟩ : Locker).lock = .done (.error .keyEmpty) := by
  intro m address built r long wrong early
  have hr : r.Reached := ⟨built, [.connect], ⟨rfl, rfl, by decide⟩, rfl⟩
  have hstatus : r.status = .uninitialized := by rfl
  obtain ⟨hmemory, hredis, hlocker, -⟩ := rejections_alike m hr
  have hrejected : ∀ p ∈ wrong ++ early, p.1.rejection? .uninitialized = some p.2 := by
    simp only [wrong, early, List.cons_append, List.nil_append, List.forall_mem_cons]
    exact ⟨rfl, rfl, rfl, rfl, rfl, rfl, rfl, List.forall_mem_nil _⟩
  have hwrong : ∀ p ∈ wrong, p.1.rejection? m.status = some p.2 := by
    simp only [wrong, List.forall_mem_cons]
    exact ⟨rfl, rfl, rfl, rfl, List.forall_mem_nil _⟩
  refine ⟨hr, by rw [hstatus]; decide, fun q told h => hmemory q told (hwrong _ h),
    fun q told h => hredis q told ?_, (hlocker _ rfl).1⟩
  rw [hstatus]
  exact hrejected _ h

end KeyLease
