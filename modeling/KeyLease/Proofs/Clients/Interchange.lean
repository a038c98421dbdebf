import KeyLease.Proofs.Clients.Session
import KeyLease.Proofs.Redis.Serving

set_option autoImplicit false

/-!
# Stores that can be exchanged

The same requests are made of a memory store and of a Redis store, and between them the same whole
milliseconds pass for both. Whatever the memory store sweeps meanwhile, the clients are told the
same, step by step: `backends_interchange`. The one difference between the stores is that a server
counts times to live in whole milliseconds, so the memory store is given each accepted one as the
server counts it (`Duration.rounded`).

The two stores are in step (`InStep`) if they hold the same keys now and will still do so after any
number of milliseconds. Where a sweep has passed, or a key has been left behind after its expiry,
their tables differ; what is held does not.
-/

namespace KeyLease

/-! ## Times to live as a server counts them -/

/-- A time to live as a server counts it: one that is accepted in whole milliseconds, rounded down
but at least one. -/
def Duration.rounded (ttl : Duration) : Duration :=
  match ensureTtl ttl with
  | .ok () => .ofMillis (max ttl.wholeMillis 1)
  | .error _ => ttl

namespace Duration

variable {ttl : Duration}

theorem rounded_of_accepted (h : ensureTtl ttl = .ok ()) :
    ttl.rounded = .ofMillis (max ttl.wholeMillis 1) := by
  simp only [rounded, h]

theorem rounded_of_refused {e : Failure} (h : ensureTtl ttl = .error e) : ttl.rounded = ttl := by
  simp only [rounded, h]

/-- Rounding keeps within the bounds. -/
theorem ensureTtl_rounded (h : ensureTtl ttl = .ok ()) : ensureTtl ttl.rounded = .ok () := by
  obtain ⟨hpos, hle⟩ := ensureTtl_eq_ok_iff.mp h
  rw [rounded_of_accepted h, ensureTtl_eq_ok_iff]
  have hmax : maxTtl.nanos = 31536000 * 1000000000 + 0 := rfl
  simp only [ofMillis, wholeMillis]
  omega

/-- Whole milliseconds are left as they are. -/
theorem rounded_ofMillis (n : Nat) : (ofMillis n).rounded = ofMillis n := by
  cases h : ensureTtl (ofMillis n) with
  | error e => exact rounded_of_refused h
  | ok _ =>
      have hpos := (ensureTtl_eq_ok_iff.mp h).1
      have hwhole : (ofMillis n).wholeMillis = n := Nat.mul_div_cancel n (by omega)
      have hmax : max n 1 = n := Nat.max_eq_left (Nat.pos_of_mul_pos_right hpos)
      rw [rounded_of_accepted h, hwhole, hmax]

end Duration

/-- A call with its time to live rounded, if it has one. -/
def Call.rounded : Call → Call
  | .tryAcquire key ttl => .tryAcquire key ttl.rounded
  | c => c

namespace ClientRequest

/-- A request with its time to live rounded, if it has one. -/
def rounded : ClientRequest → ClientRequest
  | direct c => direct c.rounded
  | lock l => lock (l.withTtl l.ttl.rounded)
  | validate g rawKey => validate { g with ttl := g.ttl.rounded } rawKey
  | r => r

theorem call_rounded (r : ClientRequest) : r.rounded.call = r.call.rounded := by
  cases r <;> rfl

theorem respond_rounded (r : ClientRequest) (a : Answer) : r.rounded.respond a = r.respond a := by
  cases r <;> rfl

/-- If a request comes with a time to live that is accepted, it is one of whole milliseconds. -/
def InWholeMillis (r : ClientRequest) : Prop :=
  ∀ key ttl, r.call = .tryAcquire key ttl → ensureTtl ttl = .ok () → ∃ n, ttl = .ofMillis n

theorem InWholeMillis.rounded_ttl {r : ClientRequest} (hr : r.InWholeMillis) {key : String}
    {ttl : Duration} (hcall : r.call = .tryAcquire key ttl) : ttl.rounded = ttl := by
  cases httl : ensureTtl ttl with
  | error e => exact Duration.rounded_of_refused httl
  | ok _ =>
      obtain ⟨n, rfl⟩ := hr key ttl hcall httl
      exact Duration.rounded_ofMillis n

theorem InWholeMillis.rounded {r : ClientRequest} (hr : r.InWholeMillis) : r.rounded = r := by
  cases r with
  | direct c =>
      cases c with
      | tryAcquire key ttl =>
          simp only [ClientRequest.rounded, Call.rounded, hr.rounded_ttl (r := direct _) rfl]
      | _ => rfl
  | lock l => simp only [ClientRequest.rounded, Locker.withTtl, hr.rounded_ttl (r := lock l) rfl]
  | validate g rawKey =>
      simp only [ClientRequest.rounded, hr.rounded_ttl (r := validate g rawKey) rfl]
  | unlock l => rfl
  | isLocked l => rfl
  | isAdmitted g rawKey => rfl

end ClientRequest

/-! ## Runs of both stores -/

/-- How many nanoseconds pauses take together. -/
def Memory.Pause.total : List Pause → Nat
  | [] => 0
  | p :: ps => p.length.nanos + total ps

/-- A number of whole milliseconds, as a memory store goes through them: its clock may move in parts
of any length, with sweeps between them. -/
structure Wait where
  millis : Nat
  pauses : List Memory.Pause
  whole : Memory.Pause.total pauses = millis * 1000000

/-- A leg of a run of both stores: the same request is made of both, or the same time passes. -/
inductive Leg
  | request (r : ClientRequest)
  | wait (w : Wait)

namespace Leg

/-- How many milliseconds pass in a run. -/
def total : List Leg → Nat
  | [] => 0
  | request _ :: rest => total rest
  | wait w :: rest => w.millis + total rest

/-- A leg with the time to live of its request rounded. -/
def rounded : Leg → Leg
  | request r => request r.rounded
  | wait w => wait w

end Leg

/-- What the clients are told in a run of a store, request by request. -/
def responses {σ : Type} [LeaseStore σ] (wait : Wait → σ → σ) (s : σ) : List Leg → List Response
  | [] => []
  | .request r :: rest =>
      let (response, s) := r.script.run s
      response :: responses wait s rest
  | .wait w :: rest => responses wait (wait w s) rest

/-- A memory store goes through the parts of a wait. -/
def Memory.Store.wait (w : Wait) (s : Store) : Store :=
  w.pauses.foldl (fun s p => (s.act p.action).2) s

/-- For a Redis store the clock of its server moves. -/
def Redis.Store.wait (w : Wait) (s : Store) : Store := s.elapse w.millis

/-- Redis stores turn the empty key away. -/
theorem Redis.Store.turnsAwayEmptyKey (s : Redis.Store) : TurnsAwayEmptyKey s :=
  ⟨fun _ => rfl, rfl, rfl⟩

/-- Requests come down to one call, in runs as well. -/
theorem responses_request {σ : Type} [LeaseStore σ] (wait : Wait → σ → σ) {s : σ}
    (hs : TurnsAwayEmptyKey s) (r : ClientRequest) (rest : List Leg) :
    responses wait s (.request r :: rest)
      = r.respond (LeaseStore.perform r.call s).1
          :: responses wait (LeaseStore.perform r.call s).2 rest := by
  simp only [responses, r.run_script hs]

namespace Memory.Store

theorem later_wait (s : Store) (w : Wait) : Later s (s.wait w) := by
  unfold wait
  induction w.pauses generalizing s with
  | nil => exact Later.refl s
  | cons p ps ih => exact (s.later_pause p).trans (ih (s.act p.action).2)

theorem now_wait (s : Store) (w : Wait) : (s.wait w).now = s.now + w.millis * 1000000 := by
  rw [← w.whole, wait]
  induction w.pauses generalizing s with
  | nil => rfl
  | cons p ps ih => rw [List.foldl_cons, ih, s.now_pause, Pause.total, Nat.add_assoc]

end Memory.Store

/-! ## Stores in step -/

/-- A memory store holds the same keys as a server, now and after any number of milliseconds. -/
structure InStep (m : Memory.Store) (keys : Redis.Keyspace) : Prop where
  connected : m.status = .connected
  isLive : ∀ n key,
    m.leases.isLive (m.now + n * 1000000) key = keys.leases.isLive (keys.now + n) key

namespace InStep

variable {m : Memory.Store} {keys : Redis.Keyspace}

/-- Stores that hold nothing are in step. -/
theorem start (hconn : m.status = .connected) (hm : m.leases = {}) (hkeys : keys.leases = {}) :
    InStep m keys := by
  refine ⟨hconn, fun n key => ?_⟩
  simp only [hm, hkeys, Leases.isLive, Leases.expiry?_empty]

theorem isLive_now (h : InStep m keys) (key : String) :
    m.leases.isLive m.now key = keys.isLive key := by
  simpa only [Nat.zero_mul, Nat.add_zero, Redis.Keyspace.isLive] using h.isLive 0 key

/-- A key that is set in both stores for the same number of milliseconds. -/
theorem put (h : InStep m keys) (key : String) (px : Nat) :
    InStep { m with leases := m.leases.insert key (m.now + px * 1000000) } (keys.put key px) := by
  refine ⟨h.connected, fun n other => ?_⟩
  have hlt : m.now + n * 1000000 < m.now + px * 1000000 ↔ keys.now + n < keys.now + px := by omega
  simp only [Redis.Keyspace.put, Leases.isLive_insert, hlt, h.isLive n other]

theorem drop (h : InStep m keys) (key : String) :
    InStep { m with leases := m.leases.erase key } (keys.drop key) := by
  refine ⟨h.connected, fun n other => ?_⟩
  simp only [Redis.Keyspace.drop, Leases.isLive_erase, h.isLive n other]

/-- Time passes, and the memory store sweeps as it likes. -/
theorem wait (h : InStep m keys) (w : Wait) : InStep (m.wait w) (keys.advance w.millis) := by
  have hlater := m.later_wait w
  refine ⟨hlater.status.trans h.connected, fun n key => ?_⟩
  have hsum : m.now + w.millis * 1000000 + n * 1000000 = m.now + (w.millis + n) * 1000000 := by
    omega
  rw [hlater.isLive (Nat.le_add_right _ _), m.now_wait, hsum, h.isLive]
  simp only [Redis.Keyspace.advance, Nat.add_assoc]

theorem tryAcquire (h : InStep m keys) (hclock : m.now + maxTtl.nanos ≤ m.clockEnd) (key : String)
    (ttl : Duration) :
    (m.tryAcquire key ttl.rounded).1 = (keys.answer (.tryAcquire key ttl)).1 ∧
      InStep (m.tryAcquire key ttl.rounded).2 (keys.answer (.tryAcquire key ttl)).2 := by
  cases hkey : ensureKey key with
  | error e =>
      simp only [Memory.Store.tryAcquire, Redis.Keyspace.answer, hkey, true_and]
      exact h
  | ok _ =>
      cases httl : ensureTtl ttl with
      | error e =>
          rw [Duration.rounded_of_refused httl]
          simp only [Memory.Store.tryAcquire, Redis.Keyspace.answer, hkey, httl, true_and]
          exact h
      | ok _ =>
          have hne := ensureKey_eq_ok_iff.mp hkey
          have hrounded := Duration.ensureTtl_rounded httl
          have hle := (ensureTtl_eq_ok_iff.mp hrounded).2
          have hacc : m.Accepts ttl.rounded := ⟨hrounded, by omega⟩
          simp only [Redis.Keyspace.answer, hkey, httl, ← h.isLive_now]
          cases hlive : m.leases.isLive m.now key with
          | true =>
              rw [Memory.Store.tryAcquire_of_isLive h.connected hne hacc hlive]
              exact ⟨rfl, h⟩
          | false =>
              rw [Memory.Store.tryAcquire_of_not_isLive h.connected hne hacc hlive,
                Duration.rounded_of_accepted httl]
              exact ⟨rfl, h.put key _⟩

theorem release (h : InStep m keys) (key : String) :
    (m.release key).1 = (keys.answer (.release key)).1 ∧
      InStep (m.release key).2 (keys.answer (.release key)).2 := by
  cases hkey : ensureKey key with
  | error e =>
      simp only [Memory.Store.release, Redis.Keyspace.answer, hkey, true_and]
      exact h
  | ok _ =>
      rw [Memory.Store.release_of_connected h.connected (ensureKey_eq_ok_iff.mp hkey)]
      simp only [Redis.Keyspace.answer, hkey, ← h.isLive_now, true_and]
      exact h.drop key

/-- A call to both stores, as the server counts its time to live: it is answered alike. -/
theorem perform (h : InStep m keys) (hclock : m.now + maxTtl.nanos ≤ m.clockEnd) (c : Call) :
    (m.perform c.rounded).1 = (keys.answer c).1 ∧
      InStep (m.perform c.rounded).2 (keys.answer c).2 := by
  cases c with
  | tryAcquire key ttl => exact h.tryAcquire hclock key ttl
  | release key => exact h.release key
  | «exists» key =>
      refine ⟨?_, h⟩
      simp only [Call.rounded, Memory.Store.perform, Memory.Store.exists?, h.connected,
        decide_true, Bool.and_true, h.isLive_now, Redis.Keyspace.answer]
  | check probe =>
      refine ⟨?_, h⟩
      simp only [Call.rounded, Memory.Store.perform, h.connected]
      rfl

/-- Stores in step answer the same all along, if the clock can name the end of every lease. -/
theorem responses_eq (h : InStep m keys) {r : Redis.Store} (hserves : r.Serves keys)
    {legs : List Leg}
    (hclock : m.now + Leg.total legs * 1000000 + maxTtl.nanos ≤ m.clockEnd) :
    responses Memory.Store.wait m (legs.map Leg.rounded)
      = responses Redis.Store.wait r legs := by
  induction legs generalizing m keys r with
  | nil => rfl
  | cons leg legs ih =>
      cases leg with
      | request req =>
          have hnow : m.now + maxTtl.nanos ≤ m.clockEnd := by
            rw [Leg.total] at hclock
            omega
          obtain ⟨hanswer, hnext⟩ := h.perform hnow req.call
          obtain ⟨hanswer', hserves'⟩ := hserves.perform req.call
          obtain ⟨-, hsame, hend⟩ := m.perform_frame req.call.rounded
          have hrest := ih hnext hserves' (by rwa [hsame, hend])
          rw [List.map_cons, Leg.rounded, responses_request _ m.turnsAwayEmptyKey,
            responses_request _ r.turnsAwayEmptyKey, ClientRequest.call_rounded,
            ClientRequest.respond_rounded]
          exact List.cons_eq_cons.mpr ⟨congrArg req.respond (hanswer.trans hanswer'.symm), hrest⟩
      | wait w =>
          refine ih (h.wait w) (hserves.elapse w.millis) ?_
          rw [m.now_wait, (m.later_wait w).clockEnd]
          rw [Leg.total] at hclock
          omega

end InStep

/-! ## Exchanging stores -/

/-- **Stores can be exchanged.** A connected memory store, however it sweeps, and a Redis store
whose server carries out every command at once, both empty at first, tell clients the same at every
request, whatever is asked, if the memory store is given each accepted time to live as the server
counts it. They do so without that if all of these are whole milliseconds. The clock of the memory
store must be able to name the end of the longest lease throughout. -/
theorem backends_interchange (m : Memory.Store) (r : Redis.Store) (keys : Redis.Keyspace)
    (legs : List Leg) (hconn : m.status = .connected) (hm : m.leases = {})
    (hserves : r.Serves keys) (hkeys : keys.leases = {})
    (hclock : m.now + Leg.total legs * 1000000 + maxTtl.nanos ≤ m.clockEnd) :
    responses Memory.Store.wait m (legs.map Leg.rounded) = responses Redis.Store.wait r legs ∧
    ((∀ req, .request req ∈ legs → req.InWholeMillis) →
      responses Memory.Store.wait m legs = responses Redis.Store.wait r legs) := by
  have hsame := (InStep.start hconn hm hkeys).responses_eq hserves hclock
  refine ⟨hsame, fun hwhole => ?_⟩
  have hrounded : legs.map Leg.rounded = legs := by
    refine (List.map_congr_left fun leg hleg => ?_).trans (List.map_id legs)
    cases leg with
    | request req => exact congrArg Leg.request (hwhole req hleg).rounded
    | wait w => rfl
  rwa [hrounded] at hsame

/-- Without rounding a lease of two and a half milliseconds is still there after two. -/
example :
    let legs : List Leg :=
      [.request (.direct (.tryAcquire "a" ⟨2500000⟩)), .wait ⟨2, [.drift (.ofMillis 2)], rfl⟩,
        .request (.direct (.exists "a"))]
    let m : Memory.Store := { status := .connected }
    responses Memory.Store.wait m legs = [.answer (.ok true), .answer (.ok true)] ∧
      responses Memory.Store.wait m (legs.map Leg.rounded)
        = [.answer (.ok true), .answer (.ok false)] := ⟨rfl, rfl⟩

/-- A run over a server that has just been connected to, with a sweep in the middle of a
millisecond, for a time to live that is rounded and for one that is not. -/
theorem backends_interchange_job :
    let address : Redis.Address :=
      ⟨"redis", none, some "secret", .named "localhost", 6379, some 2⟩
    let unconnected : Redis.Store :=
      { address, endpoint := "redis://localhost:6379/2", opTimeout := .ofMillis 100,
        network := { port := 6379, server := some {} } }
    let r := unconnected.connect.2
    let m : Memory.Store := { status := .connected, sweepInterval := some (.ofMillis 1) }
    let pause : Wait := ⟨2, [.drift ⟨1500000⟩, .sweep, .drift ⟨500000⟩], rfl⟩
    let legs (ttl : Duration) : List Leg :=
      [.request (.lock ⟨.locks, "a", ttl⟩), .request (.validate ⟨.admissions, ttl⟩ "a"),
        .request (.direct (.tryAcquire "" ttl)), .wait pause,
        .request (.isLocked ⟨.locks, "a", ttl⟩), .request (.lock ⟨.locks, "a", .zero⟩),
        .request (.unlock ⟨.locks, "a", ttl⟩), .request (.isAdmitted ⟨.admissions, ttl⟩ "a")]
    m.status = .connected ∧ m.leases = {} ∧ r.Serves {} ∧
      (∀ ttl, m.now + Leg.total (legs ttl) * 1000000 + maxTtl.nanos ≤ m.clockEnd) ∧
      (∀ req, .request req ∈ legs (.ofMillis 2) → req.InWholeMillis) ∧
      responses Memory.Store.wait m ((legs ⟨2500000⟩).map Leg.rounded)
        = responses Redis.Store.wait r (legs ⟨2500000⟩) ∧
      responses Memory.Store.wait m (legs (.ofMillis 2))
        = responses Redis.Store.wait r (legs (.ofMillis 2)) := by
  intro address unconnected r m pause legs
  have hserves : r.Serves {} := Redis.Store.serves_of_connect (s := unconnected) rfl rfl rfl
  have hclock : ∀ ttl,
      m.now + Leg.total (legs ttl) * 1000000 + maxTtl.nanos ≤ m.clockEnd := by
    intro ttl
    have hmillis : Leg.total (legs ttl) = 2 := rfl
    rw [hmillis]
    decide
  have hwhole : ∀ req, .request req ∈ legs (.ofMillis 2) → req.InWholeMillis := by
    intro req hreq key ttl hcall hacc
    simp only [legs, List.mem_cons, Leg.request.injEq, reduceCtorEq, List.not_mem_nil, or_false,
      false_or] at hreq
    rcases hreq with rfl | rfl | rfl | rfl | rfl | rfl | rfl
    · cases hcall
      exact ⟨2, rfl⟩
    · cases hcall
      exact ⟨2, rfl⟩
    · cases hcall
      exact ⟨2, rfl⟩
    · cases hcall
    · cases hcall
      exact ⟨0, rfl⟩
    · cases hcall
    · cases hcall
  exact ⟨rfl, rfl, hserves, hclock, hwhole,
    (backends_interchange m r {} (legs ⟨2500000⟩) rfl rfl hserves rfl (hclock _)).1,
    (backends_interchange m r {} (legs (.ofMillis 2)) rfl rfl hserves rfl (hclock _)).2 hwhole⟩

end KeyLease
