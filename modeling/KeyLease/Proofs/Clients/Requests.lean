import KeyLease.Admission
import KeyLease.Lock
import KeyLease.Proofs.Memory.Calls

set_option autoImplicit false

/-!
# Requests

What clients ask of a store: a call of their own, or something through a locker or an admission
guard. A request is carried out as its script says (`ClientRequest.script`). For a store that turns
the empty key away, every request is one call and a judgement of the answer to it
(`ClientRequest.run_script`), so that what is known of calls carries over to requests.

The stored key of an empty raw key would be no key at all; such a request is answered as the store
answers about the empty key.
-/

namespace KeyLease

/-! ## Stored keys -/

namespace Namespace

/-- The stored form of a raw key, and the empty text for the raw key that has none. -/
def stored (ns : Namespace) (rawKey : String) : String := (ns.key rawKey).toOption.getD ""

/-- What the stored keys of a namespace begin with. -/
def stem (ns : Namespace) : String := ns.name ++ String.singleton keySeparator

theorem key_empty (ns : Namespace) : ns.key "" = .error .keyEmpty := rfl

theorem stored_empty (ns : Namespace) : ns.stored "" = "" := rfl

theorem key_eq_stored {ns : Namespace} {rawKey : String} (h : rawKey ≠ "") :
    ns.key rawKey = .ok (ns.stored rawKey) := by
  have hne : rawKey.isEmpty = false := by simpa using h
  simp [stored, key, hne, Except.toOption]

theorem stored_eq {ns : Namespace} {rawKey : String} (h : rawKey ≠ "") :
    ns.stored rawKey = ns.stem ++ rawKey := by
  have hne : rawKey.isEmpty = false := by simpa using h
  simp [stored, key, hne, Except.toOption, stem]

theorem stored_eq_empty_iff {ns : Namespace} {rawKey : String} :
    ns.stored rawKey = "" ↔ rawKey = "" := by
  by_cases h : rawKey = ""
  · simp [h, stored_empty]
  · simp [h, stored_eq h, String.append_eq_empty_iff]

/-- The stored keys of a namespace are texts, and none of them is empty. -/
theorem key_eq_ok_iff {ns : Namespace} {rawKey stored : String} :
    ns.key rawKey = .ok stored ↔ stored ≠ "" ∧ ns.stored rawKey = stored := by
  by_cases h : rawKey = ""
  · subst h
    rw [key_empty, stored_empty]
    simp [eq_comm]
  · rw [key_eq_stored h, Except.ok.injEq]
    constructor
    · rintro rfl
      exact ⟨fun hnil => h (stored_eq_empty_iff.mp hnil), rfl⟩
    · exact And.right

end Namespace

/-! ## Scripts of one call -/

/-- What a client that wants a key makes of the answer: a no is the failure that names the key. -/
def Answer.granted (no : Failure) : Answer → Except Failure Unit
  | .ok true => .ok ()
  | .ok false => .error no
  | .error e => .error e

theorem Answer.granted_eq_ok_iff {no : Failure} {a : Answer} :
    Answer.granted no a = .ok () ↔ a = .ok true := by
  rcases a with e | (_ | _) <;> simp [Answer.granted]

/-- What a client that asks about a key makes of the answer: a failure is a no. -/
def Answer.told (a : Answer) : Bool := a.toOption.getD false

/-- A store that answers about the empty key before it looks at anything. -/
structure TurnsAwayEmptyKey {σ : Type} [LeaseStore σ] (s : σ) : Prop where
  tryAcquire : ∀ ttl, LeaseStore.perform (.tryAcquire "" ttl) s = (.error .keyEmpty, s)
  release : LeaseStore.perform (.release "") s = (.error .keyEmpty, s)
  «exists» : LeaseStore.perform (.exists "") s = (.ok false, s)

namespace Script

variable {σ : Type} [LeaseStore σ] {s : σ}

theorem run_map {α β : Type} (f : α → β) (script : Script α) (s : σ) :
    (f <$> script).run s = (f (script.run s).1, (script.run s).2) :=
  run_bind script (fun a => .done (f a)) s

/-- Wants something of a stored key, if there is one. -/
def claim (key : Except Failure String) (c : String → Call) (no : String → Failure) :
    Script (Except Failure Unit) :=
  match key with
  | .error e => .done (.error e)
  | .ok key => .call (c key) fun a => .done (Answer.granted (no key) a)

/-- Asks whether a stored key is held, if there is one. -/
def inquire (key : Except Failure String) : Script Bool :=
  match key with
  | .error _ => .done false
  | .ok key => .call (.exists key) fun a => .done (Answer.told a)

/-- A call whose answer is judged as `Answer.granted` does, case by case. -/
theorem call_granted {c : Call} {no : Failure} {next : Answer → Script (Except Failure Unit)}
    (hyes : next (.ok true) = .done (.ok ())) (hno : next (.ok false) = .done (.error no))
    (hfailed : ∀ e, next (.error e) = .done (.error e)) :
    Script.call c next = .call c fun a => .done (Answer.granted no a) := by
  refine congrArg (Script.call c) (funext fun a => ?_)
  rcases a with e | (_ | _)
  · exact hfailed e
  · exact hno
  · exact hyes

theorem run_claim (ns : Namespace) (rawKey : String) (c : String → Call) (no : String → Failure)
    (hempty : LeaseStore.perform (c "") s = (.error .keyEmpty, s)) :
    (claim (ns.key rawKey) c no).run s
      = (Answer.granted (no (ns.stored rawKey)) (LeaseStore.perform (c (ns.stored rawKey)) s).1,
          (LeaseStore.perform (c (ns.stored rawKey)) s).2) := by
  by_cases h : rawKey = ""
  · subst h
    rw [Namespace.key_empty, Namespace.stored_empty, hempty]
    rfl
  · rw [Namespace.key_eq_stored h]
    rfl

theorem run_inquire (ns : Namespace) (rawKey : String)
    (hempty : LeaseStore.perform (.exists "") s = (.ok false, s)) :
    (inquire (ns.key rawKey)).run s
      = (Answer.told (LeaseStore.perform (.exists (ns.stored rawKey)) s).1,
          (LeaseStore.perform (.exists (ns.stored rawKey)) s).2) := by
  by_cases h : rawKey = ""
  · subst h
    rw [Namespace.key_empty, Namespace.stored_empty, hempty]
    rfl
  · rw [Namespace.key_eq_stored h]
    rfl

end Script

theorem Locker.lock_eq (l : Locker) :
    l.lock = .claim (l.ns.key l.rawKey) (.tryAcquire · l.ttl) .alreadyLocked := by
  unfold lock storedKey Script.claim
  cases l.ns.key l.rawKey with
  | error e => rfl
  | ok key => exact Script.call_granted rfl rfl fun _ => rfl

theorem Locker.unlock_eq (l : Locker) :
    l.unlock = .claim (l.ns.key l.rawKey) .release .notLocked := by
  unfold unlock storedKey Script.claim
  cases l.ns.key l.rawKey with
  | error e => rfl
  | ok key => exact Script.call_granted rfl rfl fun _ => rfl

theorem Locker.isLocked_eq (l : Locker) : l.isLocked = .inquire (l.ns.key l.rawKey) := by
  unfold isLocked storedKey Script.inquire
  cases l.ns.key l.rawKey <;> rfl

theorem AdmissionGuard.validate_eq (g : AdmissionGuard) (rawKey : String) :
    g.validate rawKey = .claim (g.ns.key rawKey) (.tryAcquire · g.ttl) .conflict := by
  unfold validate Script.claim
  cases g.ns.key rawKey with
  | error e => rfl
  | ok key => exact Script.call_granted rfl rfl fun _ => rfl

theorem AdmissionGuard.isAdmitted_eq (g : AdmissionGuard) (rawKey : String) :
    g.isAdmitted rawKey = .inquire (g.ns.key rawKey) := by
  unfold isAdmitted Script.inquire
  cases g.ns.key rawKey <;> rfl

/-! ## Requests -/

/-- What a client asks for. -/
inductive ClientRequest
  | direct (c : Call)
  | lock (l : Locker)
  | unlock (l : Locker)
  | isLocked (l : Locker)
  | validate (g : AdmissionGuard) (rawKey : String)
  | isAdmitted (g : AdmissionGuard) (rawKey : String)
  deriving DecidableEq

/-- What a client is told. -/
inductive Response
  | answer (a : Answer)
  | result (r : Except Failure Unit)
  | flag (b : Bool)

namespace ClientRequest

/-- What is done about a request. -/
def script : ClientRequest → Script Response
  | direct c => .answer <$> Script.ask c
  | lock l => .result <$> l.lock
  | unlock l => .result <$> l.unlock
  | isLocked l => .flag <$> l.isLocked
  | validate g rawKey => .result <$> g.validate rawKey
  | isAdmitted g rawKey => .flag <$> g.isAdmitted rawKey

/-- The namespace that a request goes through, if it goes through one. -/
def ns? : ClientRequest → Option Namespace
  | direct _ => none
  | lock l | unlock l | isLocked l => some l.ns
  | validate g _ | isAdmitted g _ => some g.ns

/-- The locker that a request goes through, if it goes through one. -/
def locker? : ClientRequest → Option Locker
  | lock l | unlock l | isLocked l => some l
  | direct _ | validate _ _ | isAdmitted _ _ => none

/-- The admission guard that a request goes through, if it goes through one. -/
def guard? : ClientRequest → Option AdmissionGuard
  | validate g _ | isAdmitted g _ => some g
  | direct _ | lock _ | unlock _ | isLocked _ => none

theorem locker?_eq_some_iff {r : ClientRequest} {l : Locker} :
    r.locker? = some l ↔ r = lock l ∨ r = unlock l ∨ r = isLocked l := by
  cases r <;> simp [locker?]

theorem guard?_eq_some_iff {r : ClientRequest} {g : AdmissionGuard} :
    r.guard? = some g ↔ ∃ rawKey, r = validate g rawKey ∨ r = isAdmitted g rawKey := by
  cases r <;> simp [guard?]

/-- The call that a request comes down to. -/
def call : ClientRequest → Call
  | direct c => c
  | lock l => .tryAcquire (l.ns.stored l.rawKey) l.ttl
  | unlock l => .release (l.ns.stored l.rawKey)
  | isLocked l => .exists (l.ns.stored l.rawKey)
  | validate g rawKey => .tryAcquire (g.ns.stored rawKey) g.ttl
  | isAdmitted g rawKey => .exists (g.ns.stored rawKey)

/-- What the client is told by the answer to that call. -/
def respond : ClientRequest → Answer → Response
  | direct _, a => .answer a
  | lock l, a => .result (Answer.granted (.alreadyLocked (l.ns.stored l.rawKey)) a)
  | unlock l, a => .result (Answer.granted (.notLocked (l.ns.stored l.rawKey)) a)
  | validate g rawKey, a => .result (Answer.granted (.conflict (g.ns.stored rawKey)) a)
  | isLocked _, a | isAdmitted _ _, a => .flag (Answer.told a)

/-- A request is one call and a judgement of the answer. -/
theorem run_script {σ : Type} [LeaseStore σ] {s : σ} (hs : TurnsAwayEmptyKey s)
    (r : ClientRequest) :
    r.script.run s
      = (r.respond (LeaseStore.perform r.call s).1, (LeaseStore.perform r.call s).2) := by
  cases r with
  | direct c => exact Script.run_map _ _ s
  | lock l =>
      have hrun := Script.run_claim l.ns l.rawKey (.tryAcquire · l.ttl) .alreadyLocked
        (hs.tryAcquire l.ttl)
      rw [script, Script.run_map, Locker.lock_eq, hrun]
      rfl
  | unlock l =>
      have hrun := Script.run_claim l.ns l.rawKey .release .notLocked hs.release
      rw [script, Script.run_map, Locker.unlock_eq, hrun]
      rfl
  | isLocked l =>
      rw [script, Script.run_map, Locker.isLocked_eq, Script.run_inquire _ _ hs.exists]
      rfl
  | validate g rawKey =>
      have hrun := Script.run_claim g.ns rawKey (.tryAcquire · g.ttl) .conflict
        (hs.tryAcquire g.ttl)
      rw [script, Script.run_map, AdmissionGuard.validate_eq, hrun]
      rfl
  | isAdmitted g rawKey =>
      rw [script, Script.run_map, AdmissionGuard.isAdmitted_eq, Script.run_inquire _ _ hs.exists]
      rfl

end ClientRequest

/-- Memory stores turn the empty key away. -/
theorem Memory.Store.turnsAwayEmptyKey (s : Memory.Store) : TurnsAwayEmptyKey s :=
  ⟨fun _ => rfl, rfl, rfl⟩

end KeyLease
