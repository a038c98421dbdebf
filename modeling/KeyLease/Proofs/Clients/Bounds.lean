import KeyLease.Proofs.Clients.Interchange
import KeyLease.Proofs.Clients.Room
import KeyLease.Proofs.Redis.Exclusion

set_option autoImplicit false

/-!
# The bounds of a time to live

The bounds that `ensureTtl` draws are tight enough for all that is done with a time to live. Within
them it can be counted in the milliseconds of a server (`Redis.pxMillis_of_accepted`), and a clock
that has room for the longest has room for every other. So what is written down for the other case
never happens, and clients are told of a fault of the configuration exactly if they ask for a time
to live out of bounds (`ClientRequest.JudgedByBounds`): `bounds_suffice`.
-/

namespace KeyLease

/-! ## Milliseconds of a server -/

/-- The longest time to live in milliseconds. -/
theorem wholeMillis_maxTtl : maxTtl.wholeMillis = 31536000000 := by decide

theorem Duration.wholeMillis_mono {d d' : Duration} (h : d ≤ d') : d.wholeMillis ≤ d'.wholeMillis :=
  Nat.div_le_div_right h

theorem wholeMillis_le_of_accepted {ttl : Duration} (h : ensureTtl ttl = .ok ()) :
    ttl.wholeMillis ≤ 31536000000 :=
  wholeMillis_maxTtl ▸ Duration.wholeMillis_mono (ensureTtl_eq_ok_iff.mp h).2

/-- A longer time to live is sent as no fewer milliseconds. -/
theorem Redis.pxMillis_mono {ttl ttl' : Duration} {px px' : Nat} (h : pxMillis ttl = .ok px)
    (h' : pxMillis ttl' = .ok px') (hle : ttl ≤ ttl') : px ≤ px' := by
  have hmono := Duration.wholeMillis_mono hle
  unfold pxMillis at h h'
  split at h <;> split at h' <;> simp only [Except.ok.injEq, reduceCtorEq] at h h'
  omega

/-! ## Requests -/

/-- The failure that a client is told of, if it is told of one. -/
def Response.failure? : Response → Option Failure
  | answer (.error e) | result (.error e) => some e
  | answer (.ok _) | result (.ok _) | flag _ => none

theorem Response.failure?_result_eq_some_iff {r : Except Failure Unit} {e : Failure} :
    (result r).failure? = some e ↔ r = .error e := by
  cases r <;> simp [failure?]

theorem Answer.granted_eq_fault_iff {no : Failure} (hno : ∀ fault, no ≠ .configInvalid fault)
    {a : Answer} {fault : ConfigFault} :
    Answer.granted no a = .error (.configInvalid fault) ↔ a = .error (.configInvalid fault) := by
  rcases a with e | (_ | _) <;> simp [Answer.granted, hno]

namespace ClientRequest

/-- A client is told that the configuration is at fault exactly if its request is out of bounds, and
for that: it is never told that a time to live cannot be held. -/
structure JudgedByBounds (q : ClientRequest) (told : Response) : Prop where
  fault_iff : ∀ fault, told.failure? = some (.configInvalid fault) ↔ q.call.OutOfBounds fault
  not_overflows : ∀ e, told.failure? = some e → ¬ e.Overflows

/-- What a client is told of a fault is what the store has answered to its call. -/
theorem failure?_respond_iff {q : ClientRequest} {a : Answer} (h : q.call.JudgedByBounds a)
    (fault : ConfigFault) :
    (q.respond a).failure? = some (.configInvalid fault) ↔ q.call.OutOfBounds fault := by
  cases q with
  | direct c =>
      rw [← h fault, respond]
      cases a <;> simp [Response.failure?]
  | lock l =>
      rw [← h fault, respond, Response.failure?_result_eq_some_iff]
      exact Answer.granted_eq_fault_iff (by simp)
  | unlock l =>
      rw [← h fault, respond, Response.failure?_result_eq_some_iff]
      exact Answer.granted_eq_fault_iff (by simp)
  | validate g rawKey =>
      rw [← h fault, respond, Response.failure?_result_eq_some_iff]
      exact Answer.granted_eq_fault_iff (by simp)
  | isLocked l => exact iff_of_false nofun id
  | isAdmitted g rawKey => exact iff_of_false nofun id

theorem judged_respond {q : ClientRequest} {a : Answer} (h : q.call.JudgedByBounds a) :
    q.JudgedByBounds (q.respond a) := by
  refine ⟨failure?_respond_iff h, fun e he hover => ?_⟩
  obtain ⟨fault, rfl⟩ := hover.exists_fault
  obtain ⟨ttl, httl⟩ := ((failure?_respond_iff h fault).mp he).exists_ttl
  exact not_overflows_of_ensureTtl httl hover

/-- A store that judges calls by the bounds judges requests by them. -/
theorem judged_script {σ : Type} [LeaseStore σ] {s : σ} (haway : TurnsAwayEmptyKey s)
    (h : ∀ c : Call, c.JudgedByBounds (LeaseStore.perform c s).1) (q : ClientRequest) :
    q.JudgedByBounds (q.script.run s).1 := by
  rw [q.run_script haway]
  exact judged_respond (h q.call)

end ClientRequest

/-- Neither a lock nor an admission for the time to live is refused as a fault of the configuration,
whatever the namespace and the key. -/
def Duration.Suits {σ : Type} [LeaseStore σ] (ttl : Duration) (s : σ) : Prop :=
  ∀ ns rawKey fault,
    (((⟨ns, ttl⟩ : LockManager).locker rawKey).lock.run s).1 ≠ .error (.configInvalid fault) ∧
      (((⟨ns, ttl⟩ : AdmissionGuard).validate rawKey).run s).1 ≠ .error (.configInvalid fault)

theorem Duration.suits_of_accepted {σ : Type} [LeaseStore σ] {s : σ}
    (h : ∀ q : ClientRequest, q.JudgedByBounds (q.script.run s).1) {ttl : Duration}
    (httl : ensureTtl ttl = .ok ()) : ttl.Suits s := by
  have hwithin : ∀ key fault, ¬ (Call.tryAcquire key ttl).OutOfBounds fault := by
    intro key fault hout
    cases hout.2.symm.trans httl
  intro ns rawKey fault
  constructor
  · intro hlock
    have hjudged := (h (.lock ⟨ns, rawKey, ttl⟩)).fault_iff fault
    refine hwithin (ns.stored rawKey) fault (hjudged.mp ?_)
    rw [ClientRequest.script, Script.run_map]
    exact Response.failure?_result_eq_some_iff.mpr hlock
  · intro hvalidate
    have hjudged := (h (.validate ⟨ns, ttl⟩ rawKey)).fault_iff fault
    refine hwithin (ns.stored rawKey) fault (hjudged.mp ?_)
    rw [ClientRequest.script, Script.run_map]
    exact Response.failure?_result_eq_some_iff.mpr hvalidate

/-! ## Redis stores -/

namespace Redis

/-- An answer that a store can come to by a call: at once, or by what comes back for its command. -/
inductive Store.CanAnswer (s : Store) (c : Call) : Answer → Prop
  | settled {a : Answer} (h : s.dispatch c = .settled a) : CanAnswer s c a
  | sent {q : Query} (h : s.dispatch c = .sent q) (reply : Option Reply) :
      CanAnswer s c (q.settle reply)

theorem Store.canAnswer_perform (s : Store) (c : Call) : s.CanAnswer c (s.perform c).1 := by
  cases hd : s.dispatch c with
  | settled a =>
      rw [perform_of_settled hd]
      exact .settled hd
  | sent q =>
      obtain ⟨pool, -, hperform⟩ := perform_of_sent hd
      rw [hperform]
      exact .sent hd _

/-- Whatever is delayed or lost between the clients and the server, a caller is told what its store
can answer. -/
theorem Traffic.Consistent.canAnswer {t : Traffic} (hc : t.Consistent) {i : Nat} {c : Call}
    {a : Answer} (h : t.Answered i c a) : ∃ client : Store, client.CanAnswer c a := by
  obtain ⟨u, hu, rfl, ha⟩ := h
  have hs := hc.sound i u hu
  refine ⟨u.client, ?_⟩
  cases hd : u.client.dispatch u.call with
  | settled a' =>
      obtain rfl : a' = a := Option.some.inj ((hs.settled a' hd).symm.trans ha)
      exact .settled hd
  | sent q =>
      have hq : u.query? = some q := by rw [Ticket.query?, hd]
      rcases hs.answered q a hq ha with ⟨-, -, -, e, -, -, rfl⟩ | ⟨r, -, rfl⟩
      · exact .sent hd _
      · exact .sent hd _

theorem Store.CanAnswer.eq_of_settled {s : Store} {c : Call} {a a' : Answer} (h : s.CanAnswer c a)
    (hd : s.dispatch c = .settled a') : a = a' := by
  cases h with
  | settled hd' => exact Dispatch.settled.inj (hd'.symm.trans hd)
  | sent hd' reply => cases hd'.symm.trans hd

/-- What a client makes of a reply, or of none, is an outage if it is a failure. -/
theorem judge_ne_fault (verb : Verb) (limit : Duration) (take : Reply → Except Trouble Bool)
    (reply : Option Reply) (fault : ConfigFault) :
    judge verb limit take reply ≠ .error (.configInvalid fault) := by
  intro hfault
  obtain ⟨outage, houtage⟩ := (outageOf_bounded hfault).unavailable
  cases houtage

/-- Nothing that comes back for a command is a fault of the configuration. -/
theorem Store.settle_ne_fault {s : Store} {c : Call} {q : Query} (hd : s.dispatch c = .sent q)
    (reply : Option Reply) (fault : ConfigFault) :
    q.settle reply ≠ .error (.configInvalid fault) := by
  cases c with
  | tryAcquire key ttl =>
      simp only [dispatch] at hd
      split at hd <;> cases hd
      exact judge_ne_fault _ _ _ _ _
  | release key =>
      simp only [dispatch] at hd
      split at hd <;> cases hd
      exact judge_ne_fault _ _ _ _ _
  | «exists» key =>
      simp only [dispatch] at hd
      split at hd <;> cases hd
      simp [assumeAbsent]
  | check probe =>
      simp only [dispatch] at hd
      split at hd <;> cases hd
      exact judge_ne_fault _ _ _ _ _

theorem Store.CanAnswer.tryAcquire_judged {s : Store} {key : String} {ttl : Duration} {a : Answer}
    (h : s.CanAnswer (.tryAcquire key ttl) a) : (Call.tryAcquire key ttl).JudgedByBounds a := by
  refine Call.judged_tryAcquire ?_ ?_ ?_
  · rintro rfl
    have hd : s.dispatch (.tryAcquire "" ttl) = .settled (.error .keyEmpty) := rfl
    exact h.eq_of_settled hd
  · intro hkey e httl
    have hd : s.dispatch (.tryAcquire key ttl) = .settled (.error e) := by
      simp only [dispatch, ensureKey_eq_ok_iff.mpr hkey, httl]
    exact h.eq_of_settled hd
  · intro hkey httl fault
    cases h with
    | settled hd =>
        -- within the bounds the milliseconds can be counted, so only the connection is missing
        simp only [dispatch, ensureKey_eq_ok_iff.mpr hkey, httl, pxMillis_of_accepted httl] at hd
        cases hpool : s.pool with
        | none =>
            rw [hpool] at hd
            cases hd
            simp
        | some pool =>
            rw [hpool] at hd
            cases hd
    | sent hd reply => exact settle_ne_fault hd reply fault

/-- A Redis store judges calls by the bounds, whatever comes back for its commands. -/
theorem Store.CanAnswer.judged {s : Store} {c : Call} {a : Answer} (h : s.CanAnswer c a) :
    c.JudgedByBounds a := by
  cases c with
  | tryAcquire key ttl => exact h.tryAcquire_judged
  | release key =>
      refine fun fault => iff_of_false ?_ id
      cases h with
      | settled hd =>
          rw [dispatch, ensureKey_eq] at hd
          split_ifs at hd
          · cases hd
            simp
          · cases hpool : s.pool with
            | none =>
                rw [hpool] at hd
                cases hd
                simp
            | some pool =>
                rw [hpool] at hd
                cases hd
      | sent hd reply => exact settle_ne_fault hd reply fault
  | «exists» key =>
      refine fun fault => iff_of_false ?_ id
      cases h with
      | settled hd =>
          simp only [dispatch] at hd
          split at hd <;> cases hd
          simp
      | sent hd reply => exact settle_ne_fault hd reply fault
  | check probe =>
      refine fun fault => iff_of_false ?_ id
      cases h with
      | settled hd =>
          simp only [dispatch] at hd
          split at hd <;> cases hd
          · simp
          · cases s.status <;> simp [Status.health, Except.map]
      | sent hd reply => exact settle_ne_fault hd reply fault

end Redis

/-! ## The bounds suffice -/

/-- **The bounds of a time to live suffice.** A configuration with nothing else wrong is sound
exactly with the times to live that stores accept. Each of these is sent to a server as a number of
milliseconds between one and those of the longest, the greater the longer it is, and it ends at an
instant that the clock can name, if it can name that of the longest.

So the configuration is blamed exactly for a time to live out of bounds, and no time to live is ever
said to be too long for the clock or for the milliseconds of a server: not by a store in any state,
not in any run of a memory store, not where the steps of its tasks interleave, and not where
commands and replies of many clients are delayed or lost. Nobody who locks or admits for the time to
live of a sound configuration is told that the configuration is at fault. -/
theorem bounds_suffice :
    (∀ (c : Config) ttl, c.SoundOtherwise →
      (ensureTtl ttl = .ok () ↔ { c with defaultTtl := ttl }.check = .ok ())) ∧
    (∀ ttl, ensureTtl ttl = .ok () →
      ∃ px, Redis.pxMillis ttl = .ok px ∧ px = max 1 ttl.wholeMillis ∧
        1 ≤ px ∧ px ≤ 31536000000) ∧
    (∀ ttl ttl' px px', ttl ≤ ttl' → Redis.pxMillis ttl = .ok px →
      Redis.pxMillis ttl' = .ok px' → px ≤ px') ∧
    (∀ m : Memory.Store, m.HasRoom ↔
      ∀ ttl, ensureTtl ttl = .ok () → m.expiryAfter? ttl = some (m.now + ttl.nanos)) ∧
    ((∀ m : Memory.Store, m.HasRoom →
        ∀ q : ClientRequest, q.JudgedByBounds (q.script.run m).1) ∧
      ∀ (r : Redis.Store) (q : ClientRequest), q.JudgedByBounds (q.script.run r).1) ∧
    (∀ (m : Memory.Store) actions, (m.run actions).2.HasRoom →
      ∀ e ∈ (m.run actions).1, ∀ (q : ClientRequest) a,
        e.action = .call q.call → e.outcome = .answer a → q.JudgedByBounds (q.respond a)) ∧
    (∀ interval now clockEnd steps,
      let s := (Memory.Shared.fresh interval now clockEnd).run steps
      s.store.HasRoom → ∀ e, .error e ∈ s.answers → e.IsRefusal ∧ ¬ e.Overflows) ∧
    (∀ now keys events i (q : ClientRequest) a,
      (Redis.Traffic.run { now, keys } events).Answered i q.call a →
        q.JudgedByBounds (q.respond a)) ∧
    ∀ c : Config, c.check = .ok () →
      (∀ m : Memory.Store, m.HasRoom → c.defaultTtl.Suits m) ∧
        ∀ r : Redis.Store, c.defaultTtl.Suits r := by
  have hmemory : ∀ m : Memory.Store, m.HasRoom →
      ∀ q : ClientRequest, q.JudgedByBounds (q.script.run m).1 :=
    fun m h => ClientRequest.judged_script m.turnsAwayEmptyKey h.judged
  have hredis : ∀ (r : Redis.Store) (q : ClientRequest), q.JudgedByBounds (q.script.run r).1 :=
    fun r => ClientRequest.judged_script r.turnsAwayEmptyKey fun c => (r.canAnswer_perform c).judged
  refine ⟨fun c ttl h => (h.check_iff ttl).symm, ?_, fun ttl ttl' px px' hle h h' =>
    Redis.pxMillis_mono h h' hle, fun m => Memory.Store.hasRoom_iff, ⟨hmemory, hredis⟩, ?_, ?_, ?_,
    ?_⟩
  · intro ttl httl
    have hlong := wholeMillis_le_of_accepted httl
    refine ⟨max ttl.wholeMillis 1, Redis.pxMillis_of_accepted httl, Nat.max_comm _ _, ?_, ?_⟩
    · exact Nat.le_max_right _ _
    · omega
  · intro m actions hroom e he q a hcall hanswer
    exact ClientRequest.judged_respond (Memory.Store.judged_run hroom e he q.call a hcall hanswer)
  · intro interval now clockEnd steps s hroom e he
    have hrefusal := Memory.Shared.refusal_run hroom he
    exact ⟨hrefusal, hrefusal.not_overflows⟩
  · intro now keys events i q a hanswered
    obtain ⟨hc, -⟩ := Redis.Traffic.invariant_run (Redis.Traffic.Consistent.start now keys)
      (Redis.Ledger.start keys) events
    obtain ⟨client, hcan⟩ := hc.canAnswer hanswered
    exact ClientRequest.judged_respond hcan.judged
  · intro c hcheck
    have httl := Config.ensureTtl_of_check hcheck
    exact ⟨fun m hroom => Duration.suits_of_accepted (hmemory m hroom) httl,
      fun r => Duration.suits_of_accepted (hredis r) httl⟩

/-- A clock that ends when the longest lease does, and requests for that lease and for one that is a
nanosecond longer, of a memory store, of one with a disconnect between the two halves of an attempt,
and of a Redis store whose command is lost. -/
theorem bounds_suffice_longest :
    let c : Config := { uri := "redis://h", defaultTtl := maxTtl }
    let longer : Duration := ⟨maxTtl.nanos + 1⟩
    let tooLong : Failure := .configInvalid (.ttlTooLong longer)
    let q : ClientRequest := .lock ⟨.locks, "a", longer⟩
    let m : Memory.Store := { now := 7, clockEnd := 7 + maxTtl.nanos, status := .connected }
    let r : Redis.Store :=
      { address := ⟨"redis", none, none, .named "h", 6379, none⟩, endpoint := "redis://h"
        opTimeout := .ofMillis 50, status := .connected, pool := some { links := [0] } }
    let actions : List Memory.Action :=
      [.call (.tryAcquire "a" maxTtl), .call q.call, .disconnect, .connect]
    let s := (Memory.Shared.fresh none 0 (maxTtl.nanos + 5)).run
      [.ask 0 .connect, .take, .proceed, .proceed, .check "a" maxTtl, .check "a" longer,
        .ask 1 .disconnect, .take, .elapse ⟨5⟩, .enter 0]
    let t := Redis.Traffic.run {}
      [.call r (.tryAcquire "a" maxTtl), .lose 0, .elapse 60, .call r q.call]
    c.SoundOtherwise ∧ ¬ { c with defaultTtl := longer }.check = .ok () ∧
      ensureTtl maxTtl = .ok () ∧ ⟨1500000⟩ ≤ maxTtl ∧ Redis.pxMillis ⟨1500000⟩ = .ok 1 ∧
      (∃ px, Redis.pxMillis maxTtl = .ok px ∧ 1 ≤ px ∧ px ≤ 31536000000) ∧
      m.HasRoom ∧ m.expiryAfter? maxTtl = some m.clockEnd ∧
      q.JudgedByBounds (q.script.run m).1 ∧ q.JudgedByBounds (q.script.run r).1 ∧
      (m.run actions).2.HasRoom ∧ q.JudgedByBounds (.result (.error tooLong)) ∧
      s.store.HasRoom ∧ .error tooLong ∈ s.answers ∧ ¬ tooLong.Overflows ∧
      t.Answered 1 q.call (.error tooLong) ∧ q.JudgedByBounds (q.respond (.error tooLong)) ∧
      c.check = .ok () ∧ maxTtl.Suits m ∧ maxTtl.Suits r := by
  intro c longer tooLong q m r actions s t
  obtain ⟨hagree, hcount, hmono, hclock, ⟨hmemory, hredis⟩, hruns, hsteps, htraffic, hsuits⟩ :=
    bounds_suffice
  have hcheck : c.check = .ok () := by decide +kernel
  have hsound : c.SoundOtherwise := ⟨maxTtl, hcheck⟩
  have hlongest : ensureTtl maxTtl = .ok () := by decide
  have hlonger : ¬ ensureTtl longer = .ok () := by decide
  have hshort : Redis.pxMillis ⟨1500000⟩ = .ok 1 := by decide
  have hle : (⟨1500000⟩ : Duration) ≤ maxTtl := by decide
  have hroom : m.HasRoom := by decide
  have hroom' : (m.run actions).2.HasRoom := by decide +kernel
  have hroom'' : s.store.HasRoom := by decide +kernel
  have hrefused : .error tooLong ∈ s.answers := by decide +kernel
  let held := (m.act (.call (.tryAcquire "a" maxTtl))).2
  have hentry : held.entry (.call q.call) ∈ (m.run actions).1 :=
    List.mem_cons_of_mem _ List.mem_cons_self
  have houtcome : (held.entry (.call q.call)).outcome = .answer (.error tooLong) :=
    congrArg Memory.Outcome.answer (by decide +kernel : (held.perform q.call).1 = .error tooLong)
  have hanswered : t.Answered 1 q.call (.error tooLong) :=
    ⟨_, rfl, by decide +kernel, by decide +kernel⟩
  obtain ⟨px, hpx, -, hpos, hpxle⟩ := hcount maxTtl hlongest
  refine ⟨hsound, mt (hagree c longer hsound).mpr hlonger, hlongest, hle, hshort,
    ⟨px, hpx, hmono _ _ _ _ hle hshort hpx, hpxle⟩, hroom, (hclock m).mp hroom maxTtl hlongest,
    hmemory m hroom q, hredis r q, hroom', hruns m actions hroom' _ hentry q _ rfl houtcome,
    hroom'', hrefused, (hsteps none 0 _ _ hroom'' tooLong hrefused).2, hanswered,
    htraffic 0 {} _ 1 q _ hanswered, hcheck,
    (hsuits c hcheck).1 m hroom, (hsuits c hcheck).2 r⟩

end KeyLease
