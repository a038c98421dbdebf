import KeyLease.Proofs.Clients.Interchange
import KeyLease.Proofs.Redis.Sessions

set_option autoImplicit false

/-!
# An outage is never taken for an answer

A connected Redis store sends one command for a call that it does not refuse, and settles the call
by the reaction to it: a reply within its limit, or none (`Redis.Store.AskedOnce`). By that reaction
the answer is yes, no or an outage (`Verdict`), and a client that wants a key is told that it has
it, that someone else has, or the very outage (`Told`). `outages_told_apart` says so of every
operation on a key.
-/

namespace KeyLease

open Redis (Verb Reply Came OutageOf Command)

/-! ## What is told by a reaction -/

/-- The answer to a command by the reaction to it: yes exactly if a reply of the one kind came, no
exactly if one of the other kind did, and an outage in all other cases. -/
structure Verdict (verb : Verb) (yes no : Reply → Prop) (reaction : Option Reply) (a : Answer) :
    Prop where
  yes_iff : a = .ok true ↔ Came yes reaction
  no_iff : a = .ok false ↔ Came no reaction
  outage : ¬ Came yes reaction → ¬ Came no reaction → ∃ e, OutageOf verb e ∧ a = .error e

/-- What a client that wants a key is told by the reaction to a command, where the store answers
`a`: that it has the key, the failure `taken`, or what the store says. -/
structure Told (verb : Verb) (yes no : Reply → Prop) (taken : Failure) (reaction : Option Reply)
    (a : Answer) (result : Except Failure Unit) : Prop where
  ok_iff : result = .ok () ↔ Came yes reaction
  taken_iff : result = .error taken ↔ Came no reaction
  outage : ¬ Came yes reaction → ¬ Came no reaction →
    ∃ e, OutageOf verb e ∧ a = .error e ∧ result = .error e

theorem Redis.Reads.verdict {take : Reply → Except Redis.Trouble Bool} {yes no : Reply → Prop}
    (h : Redis.Reads take yes no) (verb : Verb) (limit : Duration) (reaction : Option Reply) :
    Verdict verb yes no reaction (Redis.judge verb limit take reaction) := by
  rcases h.judge_cases verb limit reaction with ⟨hyes, hno, hjudge⟩ | ⟨hno, hyes, hjudge⟩ |
    ⟨hyes, hno, e, houtage, hjudge⟩
  · rw [hjudge]
    exact ⟨by simp [hyes], by simp [hno], fun hnot => absurd hyes hnot⟩
  · rw [hjudge]
    exact ⟨by simp [hyes], by simp [hno], fun _ hnot => absurd hno hnot⟩
  · rw [hjudge]
    exact ⟨by simp [hyes], by simp [hno], fun _ _ => ⟨e, houtage, rfl⟩⟩

/-- A failure that says that a key is taken is no outage. -/
theorem Verdict.told {verb : Verb} {yes no : Reply → Prop} {reaction : Option Reply} {a : Answer}
    (h : Verdict verb yes no reaction a) {taken : Failure}
    (htaken : ∀ outage, taken ≠ .backendUnavailable outage) :
    Told verb yes no taken reaction a (Answer.granted taken a) := by
  -- Whatever the store fails with here is an outage, and so never the failure `taken`.
  have hoff : ∀ e, a = .error e → ∃ outage, e = .backendUnavailable outage := by
    rintro e rfl
    obtain ⟨e', houtage, he'⟩ :=
      h.outage (by simp [← h.yes_iff]) (by simp [← h.no_iff])
    cases he'
    exact houtage.unavailable
  refine ⟨Answer.granted_eq_ok_iff.trans h.yes_iff, ?_, fun hyes hno => ?_⟩
  · rw [← h.no_iff]
    rcases a with e | _ | _
    · obtain ⟨outage, rfl⟩ := hoff e rfl
      simpa [Answer.granted] using (htaken outage).symm
    · simp [Answer.granted]
    · simp [Answer.granted]
  · obtain ⟨e, houtage, rfl⟩ := h.outage hyes hno
    exact ⟨e, houtage, rfl, rfl⟩

/-! ## One command for a call -/

/-- A script sends one command to a Redis store, and by the reaction to it, a reply within the limit
or none, it comes to its value. -/
def Redis.Store.AskedOnce {α : Type} (s : Redis.Store) (script : Script α) (c : Command)
    (settle : Option Reply → α) : Prop :=
  ∃ pool, s.pool = some pool ∧ script.run s = (settle (s.send pool c).1, (s.send pool c).2)

namespace Redis.Store

variable {s : Redis.Store}

/-- A connected store asks its server about every key that it does not refuse to. -/
theorem Coherent.askedOnce (h : s.Coherent) {c : Call} (hc : ∀ probe, c ≠ .check probe)
    (hrefusal : c.refusal? s.status = none) :
    s.AskedOnce (Script.ask c) (Query.ofCall s.opTimeout c).command
      (Query.ofCall s.opTimeout c).settle := by
  have hd : s.dispatch c = .sent (.ofCall s.opTimeout c) := by rw [h.dispatch_eq hc, hrefusal]
  exact perform_of_sent hd

/-- A client that wants something of a stored key asks as the store itself asks, and is told by the
same reaction. -/
theorem exists_told (ns : Namespace) (rawKey : String) (c : String → Call)
    (taken : String → Failure)
    (hempty : LeaseStore.perform (c "") s = (.error .keyEmpty, s))
    (htaken : ∀ key outage, taken key ≠ .backendUnavailable outage) {command : Command}
    {verb : Verb} {yes no : Reply → Prop}
    (h : ∃ settle, s.AskedOnce (Script.ask (c (ns.stored rawKey))) command settle ∧
      ∀ reaction, Verdict verb yes no reaction (settle reaction)) :
    ∃ settle tell, s.AskedOnce (Script.ask (c (ns.stored rawKey))) command settle ∧
      s.AskedOnce (Script.claim (ns.key rawKey) c taken) command tell ∧
      ∀ reaction, Told verb yes no (taken (ns.stored rawKey)) reaction (settle reaction)
        (tell reaction) := by
  obtain ⟨settle, ⟨pool, hpool, hrun⟩, hverdict⟩ := h
  have hperform : LeaseStore.perform (c (ns.stored rawKey)) s
      = (settle (s.send pool command).1, (s.send pool command).2) := hrun
  refine ⟨settle, fun reaction => Answer.granted (taken (ns.stored rawKey)) (settle reaction),
    ⟨pool, hpool, hrun⟩, ⟨pool, hpool, ?_⟩, fun reaction => (hverdict reaction).told (htaken _)⟩
  rw [Script.run_claim ns rawKey c taken hempty, hperform]

/-! ## The operations on a key -/

/-- An attempt to acquire is a yes if a value came back, and a no if nil did. -/
theorem Coherent.tryAcquire_verdict (h : s.Coherent) (hstatus : s.status = .connected)
    {key : String} {ttl : Duration} (hkey : key ≠ "") (httl : ensureTtl ttl = .ok ()) :
    ∃ settle, s.AskedOnce (Script.ask (.tryAcquire key ttl)) (.setNxPx key (max ttl.wholeMillis 1))
      settle ∧
      ∀ reaction, Verdict .setNxPx Reply.IsValue (· = .nil) reaction (settle reaction) := by
  have hrefusal : (Call.tryAcquire key ttl).refusal? s.status = none := by
    rw [Call.refusal?_tryAcquire, ensureKey_eq_ok_iff.mpr hkey, httl, hstatus]
    rfl
  exact ⟨_, h.askedOnce nofun hrefusal, Redis.reads_wasSet.verdict _ _⟩

theorem Coherent.release_verdict (h : s.Coherent) (hstatus : s.status = .connected)
    {key : String} (hkey : key ≠ "") :
    ∃ settle, s.AskedOnce (Script.ask (.release key)) (.del key) settle ∧
      ∀ reaction, Verdict .del Reply.CountsSome Reply.CountsNone reaction (settle reaction) := by
  have hrefusal : (Call.release key).refusal? s.status = none := by
    rw [Call.refusal?_release, ensureKey_eq_ok_iff.mpr hkey, hstatus]
    rfl
  exact ⟨_, h.askedOnce nofun hrefusal, Redis.reads_anyKey.verdict _ _⟩

theorem Coherent.exists_verdict (h : s.Coherent) (hstatus : s.status = .connected)
    {key : String} (hkey : key ≠ "") :
    ∃ settle, s.AskedOnce (Script.ask (.exists key)) (.exists key) settle ∧
      ∀ reaction, (settle reaction = .ok true ↔ Came Reply.CountsSome reaction) ∧
        (settle reaction = .ok false ↔ ¬ Came Reply.CountsSome reaction) := by
  have hrefusal : (Call.exists key).refusal? s.status = none := by
    rw [Call.refusal?_exists, ensureKey_eq_ok_iff.mpr hkey, hstatus]
    rfl
  refine ⟨_, h.askedOnce nofun hrefusal, fun reaction => ?_⟩
  -- A no and an outage are both told as a no here, so only the yes tells anything.
  have hverdict := Redis.reads_anyKey.verdict .exists s.opTimeout reaction
  rw [← hverdict.yes_iff]
  simp only [Query.ofCall, assumeAbsent]
  rcases Redis.judge .exists s.opTimeout Reply.anyKey reaction with e | _ | _ <;>
    simp [Except.toOption]

end Redis.Store

/-- **An outage is never taken for an answer.** A connected Redis store settles every operation on a
key that passes its checks by the reaction to one command, whatever that may be. It answers yes or
no exactly if a reply of the right kind came, and tells of an outage otherwise; whether a key is
there is answered no unless a number of keys came back that is positive. So lockers and admission
guards say that a key is taken exactly if the server said so, and pass an outage on as it is, all
after one command. -/
theorem outages_told_apart {s : Redis.Store} (hs : s.Reached) (hstatus : s.status = .connected) :
    (∀ key ttl, key ≠ "" → ensureTtl ttl = .ok () →
      ∃ settle, s.AskedOnce (Script.ask (.tryAcquire key ttl))
        (.setNxPx key (max ttl.wholeMillis 1)) settle ∧
        ∀ reaction, Verdict .setNxPx Reply.IsValue (· = .nil) reaction (settle reaction)) ∧
    (∀ key, key ≠ "" →
      ∃ settle, s.AskedOnce (Script.ask (.release key)) (.del key) settle ∧
        ∀ reaction, Verdict .del Reply.CountsSome Reply.CountsNone reaction (settle reaction)) ∧
    (∀ key, key ≠ "" →
      ∃ settle, s.AskedOnce (Script.ask (.exists key)) (.exists key) settle ∧
        ∀ reaction, (settle reaction = .ok true ↔ Came Reply.CountsSome reaction) ∧
          (settle reaction = .ok false ↔ ¬ Came Reply.CountsSome reaction)) ∧
    (∀ l : Locker, l.rawKey ≠ "" → ensureTtl l.ttl = .ok () →
      let key := l.ns.stored l.rawKey
      let command := Command.setNxPx key (max l.ttl.wholeMillis 1)
      ∃ settle tell, s.AskedOnce (Script.ask (.tryAcquire key l.ttl)) command settle ∧
        s.AskedOnce l.lock command tell ∧
        ∀ reaction, Told .setNxPx Reply.IsValue (· = .nil) (.alreadyLocked key) reaction
          (settle reaction) (tell reaction)) ∧
    (∀ l : Locker, l.rawKey ≠ "" →
      let key := l.ns.stored l.rawKey
      ∃ settle tell, s.AskedOnce (Script.ask (.release key)) (.del key) settle ∧
        s.AskedOnce l.unlock (.del key) tell ∧
        ∀ reaction, Told .del Reply.CountsSome Reply.CountsNone (.notLocked key) reaction
          (settle reaction) (tell reaction)) ∧
    (∀ (g : AdmissionGuard) rawKey, rawKey ≠ "" → ensureTtl g.ttl = .ok () →
      let key := g.ns.stored rawKey
      let command := Command.setNxPx key (max g.ttl.wholeMillis 1)
      ∃ settle tell, s.AskedOnce (Script.ask (.tryAcquire key g.ttl)) command settle ∧
        s.AskedOnce (g.validate rawKey) command tell ∧
        ∀ reaction, Told .setNxPx Reply.IsValue (· = .nil) (.conflict key) reaction
          (settle reaction) (tell reaction)) := by
  have hco := hs.coherent
  have hempty := s.turnsAwayEmptyKey
  refine ⟨fun key ttl hkey httl => hco.tryAcquire_verdict hstatus hkey httl,
    fun key hkey => hco.release_verdict hstatus hkey,
    fun key hkey => hco.exists_verdict hstatus hkey, ?_, ?_, ?_⟩
  · intro l hraw httl key command
    have hkey : l.ns.stored l.rawKey ≠ "" := mt Namespace.stored_eq_empty_iff.mp hraw
    rw [l.lock_eq]
    exact Redis.Store.exists_told l.ns l.rawKey (.tryAcquire · l.ttl) .alreadyLocked
      (hempty.tryAcquire l.ttl) (fun _ _ => nofun) (hco.tryAcquire_verdict hstatus hkey httl)
  · intro l hraw key
    have hkey : l.ns.stored l.rawKey ≠ "" := mt Namespace.stored_eq_empty_iff.mp hraw
    rw [l.unlock_eq]
    exact Redis.Store.exists_told l.ns l.rawKey .release .notLocked hempty.release
      (fun _ _ => nofun) (hco.release_verdict hstatus hkey)
  · intro g rawKey hraw httl key command
    have hkey : g.ns.stored rawKey ≠ "" := mt Namespace.stored_eq_empty_iff.mp hraw
    rw [g.validate_eq]
    exact Redis.Store.exists_told g.ns rawKey (.tryAcquire · g.ttl) .conflict
      (hempty.tryAcquire g.ttl) (fun _ _ => nofun) (hco.tryAcquire_verdict hstatus hkey httl)

/-- A server that answers nil to every SET and nothing to a DEL: a lock is taken for a while, and
nobody knows whether it has been given back. -/
theorem outages_told_apart_job :
    let address : Redis.Address := ⟨"redis", none, none, .named "localhost", 6379, none⟩
    let server : Redis.Server := { treatments := [("SET", .answer "_\r\n"), ("DEL", .silence)] }
    let built : Redis.Store :=
      { address, endpoint := "redis://localhost:6379", opTimeout := .ofMillis 100
        network := { port := 6379, server := some server } }
    let s := built.connect.2
    let l : Locker := ⟨.locks, "a", maxTtl⟩
    s.Reached ∧ s.status = .connected ∧ l.rawKey ≠ "" ∧ ensureTtl l.ttl = .ok () ∧
      (l.lock.run s).1 = .error (.alreadyLocked (l.ns.stored l.rawKey)) ∧
      ∃ e, OutageOf .del e ∧ (l.unlock.run s).1 = .error e := by
  intro address server built s l
  have hs : s.Reached := ⟨built, [.connect], ⟨rfl, rfl, by decide⟩, rfl⟩
  have hstatus : s.status = .connected := by rfl
  have hraw : l.rawKey ≠ "" := by decide
  have httl : ensureTtl l.ttl = .ok () := by rfl
  have hnil : ∀ pool, s.pool = some pool →
      (s.send pool (.setNxPx (l.ns.stored l.rawKey) (max l.ttl.wholeMillis 1))).1 = some .nil := by
    rintro pool ⟨⟩
    rfl
  have hnone : ∀ pool, s.pool = some pool →
      (s.send pool (.del (l.ns.stored l.rawKey))).1 = none := by
    rintro pool ⟨⟩
    rfl
  obtain ⟨-, -, -, hlock, hunlock, -⟩ := outages_told_apart hs hstatus
  obtain ⟨settle, tell, -, ⟨pool, hpool, hrun⟩, htold⟩ := hlock l hraw httl
  obtain ⟨settle', tell', -, ⟨pool', hpool', hrun'⟩, htold'⟩ := hunlock l hraw
  refine ⟨hs, hstatus, hraw, httl, ?_, ?_⟩
  · rw [hrun, hnil pool hpool, (htold _).taken_iff]
    exact ⟨.nil, rfl, rfl⟩
  · have hnever : ∀ kind, ¬ Came kind none := by
      rintro kind ⟨_, ⟨⟩, _⟩
    obtain ⟨e, houtage, -, hresult⟩ := (htold' none).outage (hnever _) (hnever _)
    refine ⟨e, houtage, ?_⟩
    rw [hrun', hnone pool' hpool', hresult]

end KeyLease
