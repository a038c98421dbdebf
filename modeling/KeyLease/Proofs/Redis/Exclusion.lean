import KeyLease.Proofs.Redis.Traffic

set_option autoImplicit false

/-!
# Mutual exclusion over a shared server

Whatever is delayed or lost between clients and the server, no two clients are told that one
lifetime of a key is theirs: `acquisitions_exclude`. Of two calls that were granted one key the
server has carried out one command first, and before the other it has seen the end of that lifetime
or a deletion of the key. A yes or a no is the verdict of the server on the caller's own command,
and a caller that gets no reply in time is told of an outage and never of a no.

The invariant of the server's side is `Ledger`: what has been created is still there, unless its
lifetime is over or it has been deleted since.
-/

namespace KeyLease.Redis

/-! ## The server's order -/

/-- The execution sets a key that is not live, for a lifetime that ends at `expiry`. -/
def Execution.Creates (e : Execution) (key : String) (expiry : Nat) : Prop :=
  ∃ px, e.command = .setNxPx key px ∧ e.before.isLive key = false ∧ expiry = e.before.now + px

/-- Between the `p`-th and the `q`-th command the server has deleted the key. -/
def DeletedBetween (log : List Execution) (key : String) (p q : Nat) : Prop :=
  ∃ r d, p < r ∧ r < q ∧ log[r]? = some d ∧ d.command = .del key

/-- What has been created lasts until its lifetime is over or it is deleted, and no key is created
again before that. -/
structure Ledger (log : List Execution) (keys : Keyspace) : Prop where
  kept : ∀ (p : Nat) e key expiry, log[p]? = some e → e.Creates key expiry →
    DeletedBetween log key p log.length ∨ expiry ≤ keys.now ∨
      keys.leases.expiry? key = some expiry
  spaced : ∀ (p q : Nat) e e' key expiry expiry', p < q → log[p]? = some e → log[q]? = some e' →
    e.Creates key expiry → e'.Creates key expiry' →
    DeletedBetween log key p q ∨ expiry ≤ e'.before.now

/-- All that a command can do to the keys: a free key is set, a key is removed, or nothing. -/
theorem Keyspace.execute_cases (ks : Keyspace) (c : Command) :
    (∃ key px, c = .setNxPx key px ∧ ks.isLive key = false ∧
        (ks.execute c).2 = ks.put key px) ∨
      (∃ key, c = .del key ∧ (ks.execute c).2 = ks.drop key) ∨ (ks.execute c).2 = ks := by
  cases c with
  | setNxPx key px =>
      cases hlive : ks.isLive key with
      | true => exact Or.inr (Or.inr (by simp [execute, hlive]))
      | false => exact Or.inl ⟨key, px, rfl, hlive, by simp [execute, hlive]⟩
  | del key => exact Or.inr (Or.inl ⟨key, rfl, rfl⟩)
  | «exists» key => exact Or.inr (Or.inr rfl)
  | ping => exact Or.inr (Or.inr rfl)
  | auth user password => exact Or.inr (Or.inr rfl)
  | select database => exact Or.inr (Or.inr rfl)

theorem DeletedBetween.append {log : List Execution} {key : String} {p q : Nat}
    (h : DeletedBetween log key p q) (e : Execution) : DeletedBetween (log ++ [e]) key p q := by
  obtain ⟨r, d, hpr, hrq, hd, hcmd⟩ := h
  exact ⟨r, d, hpr, hrq, Log.getElem?_append_of_eq_some hd [e], hcmd⟩

/-- An expiry that the keys have for a key that is not live lies behind. -/
theorem Keyspace.expiry_le_of_not_live {ks : Keyspace} {key : String} {expiry : Nat}
    (hfree : ks.isLive key = false) (hexp : ks.leases.expiry? key = some expiry) :
    expiry ≤ ks.now := by
  have hnot : ¬ ks.now < expiry := by
    intro hlt
    have hlive : ks.isLive key = true := Leases.isLive_iff.mpr ⟨expiry, hexp, hlt⟩
    rw [hfree] at hlive
    exact Bool.false_ne_true hlive
  omega

/-- A key that is put for some time is live. -/
theorem Keyspace.isLive_put (ks : Keyspace) (key : String) {px : Nat} (hpx : 0 < px) :
    (ks.put key px).isLive key = true := by
  refine Leases.isLive_iff.mpr ⟨ks.now + px, ?_, Nat.lt_add_of_pos_right hpx⟩
  rw [Keyspace.put, Leases.expiry?_insert, if_pos rfl]

namespace Ledger

variable {log : List Execution} {keys : Keyspace}

theorem start (keys : Keyspace) : Ledger [] keys :=
  ⟨fun p e key expiry hp => absurd hp (by simp),
    fun p q e e' key expiry expiry' _ hp => absurd hp (by simp)⟩

theorem advance (hl : Ledger log keys) (ms : Nat) : Ledger log (keys.advance ms) := by
  refine ⟨?_, hl.spaced⟩
  intro p e key expiry hp hcr
  rcases hl.kept p e key expiry hp hcr with hdel | hle | hexp
  · exact Or.inl hdel
  · exact Or.inr (Or.inl (Nat.le_trans hle (Nat.le_add_right _ _)))
  · exact Or.inr (Or.inr hexp)

/-- What was there before a command is kept over it. -/
theorem kept_append (hl : Ledger log keys) {e : Execution} (hbefore : e.before = keys)
    {p : Nat} {d : Execution} {key : String} {expiry : Nat} (hp : log[p]? = some d)
    (hcr : d.Creates key expiry) :
    DeletedBetween (log ++ [e]) key p (log ++ [e]).length ∨ expiry ≤ e.after.now ∨
      e.after.leases.expiry? key = some expiry := by
  have hplt := (List.getElem?_eq_some_iff.mp hp).1
  have hlen : (log ++ [e]).length = log.length + 1 := by simp
  rcases hl.kept p d key expiry hp hcr with ⟨r, d', hpr, hrq, hd', hcmd⟩ | hrest
  · refine Or.inl (DeletedBetween.append ⟨r, d', hpr, ?_, hd', hcmd⟩ e)
    omega
  · rcases e.before.execute_cases e.command with
      ⟨key', px, -, hfree, hafter⟩ | ⟨key', hcmd, hafter⟩ | hafter
    · -- A key is set that was free: if it is this one, its lifetime was over before.
      refine Or.inr ?_
      have hnow : e.after.now = keys.now := by rw [Execution.after, hafter, hbefore]; rfl
      rcases hrest with hle | hexp
      · exact Or.inl (hnow ▸ hle)
      · by_cases hkey : key = key'
        · subst hkey
          exact Or.inl (hnow ▸ Keyspace.expiry_le_of_not_live (hbefore ▸ hfree) hexp)
        · refine Or.inr ?_
          rw [Execution.after, hafter, hbefore]
          simp only [Keyspace.put, Leases.expiry?_insert, if_neg hkey, hexp]
    · -- A key is deleted: if it is this one, the new command is the deletion that is asked for.
      by_cases hkey : key = key'
      · subst hkey
        exact Or.inl ⟨log.length, e, hplt, by omega, by simp, hcmd⟩
      · refine Or.inr ?_
        rw [Execution.after, hafter, hbefore]
        simp only [Keyspace.drop, Leases.expiry?_erase, if_neg hkey]
        exact hrest
    · refine Or.inr ?_
      rw [Execution.after, hafter, hbefore]
      exact hrest

theorem execute (hl : Ledger log keys) {e : Execution} (hbefore : e.before = keys) :
    Ledger (log ++ [e]) e.after := by
  constructor
  · intro p d key expiry hp hcr
    rcases Log.getElem?_snoc_eq_some.mp hp with hp | ⟨rfl, rfl⟩
    · exact hl.kept_append hbefore hp hcr
    · -- The new command sets the key, and its lifetime begins.
      obtain ⟨px, hcmd, hfree, rfl⟩ := hcr
      refine Or.inr (Or.inr ?_)
      have hafter : d.after = d.before.put key px := by simp [Execution.after, hcmd,
        Keyspace.execute, hfree]
      rw [hafter, Keyspace.put, Leases.expiry?_insert, if_pos rfl]
  · intro p q d d' key expiry expiry' hpq hp hq hcr hcr'
    have hqlt := (List.getElem?_eq_some_iff.mp hq).1
    rw [List.length_append, List.length_singleton] at hqlt
    rcases Log.getElem?_snoc_eq_some.mp hp with hpold | ⟨rfl, -⟩
    case inr => omega
    rcases Log.getElem?_snoc_eq_some.mp hq with hqold | ⟨rfl, rfl⟩
    · rcases hl.spaced p q d d' key expiry expiry' hpq hpold hqold hcr hcr' with hdel | hle
      · exact Or.inl (hdel.append e)
      · exact Or.inr hle
    · -- The new command finds the key free, so the lifetime before it is over.
      obtain ⟨px', hcmd', hfree, -⟩ := hcr'
      rcases hl.kept p d key expiry hpold hcr with hdel | hle | hexp
      · exact Or.inl (hdel.append _)
      · exact Or.inr (hbefore ▸ hle)
      · exact Or.inr (Keyspace.expiry_le_of_not_live hfree (hbefore ▸ hexp))

end Ledger

/-! ## Runs -/

namespace Traffic

/-- The server carries out one command on the keys as they are, or the command is not there. -/
theorem execute_cases (t : Traffic) (i : Nat) :
    t.execute i = t ∨ ∃ (e : Execution) (tickets : List Ticket), e.before = t.keys ∧
      t.execute i = { t with keys := e.after, log := t.log ++ [e], tickets } := by
  unfold execute
  split
  · exact Or.inl rfl
  · split
    · exact Or.inr ⟨_, _, rfl, rfl⟩
    · exact Or.inl rfl

theorem ledger_step {t : Traffic} (hl : Ledger t.log t.keys) (e : Event) :
    Ledger (t.step e).log (t.step e).keys := by
  cases e with
  | execute i =>
      rcases t.execute_cases i with h | ⟨e, tickets, hbefore, h⟩
      · rw [step, h]
        exact hl
      · rw [step, h]
        exact hl.execute hbefore
  | advance ms => exact hl.advance ms
  | _ => exact hl

theorem invariant_run {t : Traffic} (hc : t.Consistent) (hl : Ledger t.log t.keys)
    (events : List Event) :
    (t.run events).Consistent ∧ Ledger (t.run events).log (t.run events).keys := by
  induction events generalizing t with
  | nil => exact ⟨hc, hl⟩
  | cons e es ih => exact ih (hc.step e) (ledger_step hl e)

/-! ## What callers are told -/

/-- The `i`-th call is `c`, and its caller has been told `a`. -/
def Answered (t : Traffic) (i : Nat) (c : Call) (a : Answer) : Prop :=
  ∃ u, t.tickets[i]? = some u ∧ u.call = c ∧ u.answer = some a

/-- The `p`-th command of the server is the SET of the `i`-th call, with the milliseconds that
belong to `ttl`; it finds the key live or not, and leaves it live. -/
structure Attempt (t : Traffic) (i p : Nat) (key : String) (ttl : Duration) (live : Bool) :
    Prop where
  set : ∃ e px, t.log[p]? = some e ∧ e.ticket = i ∧ pxMillis ttl = .ok px ∧
    e.command = .setNxPx key px ∧ e.before.isLive key = live ∧ e.after.isLive key = true

/-- Between the `p`-th command of the server, which sets the key, and the `q`-th the lifetime that
the SET gives it comes to its end, or the key is deleted. -/
def Apart (log : List Execution) (key : String) (p q : Nat) : Prop :=
  p < q ∧ ∃ e e' px, log[p]? = some e ∧ log[q]? = some e' ∧ e.command = .setNxPx key px ∧
    (e.before.now + px ≤ e'.before.now ∨ DeletedBetween log key p q)

/-- A call that changes a lease. -/
def Changes (c : Call) : Prop := (∃ key ttl, c = .tryAcquire key ttl) ∨ ∃ key, c = .release key

/-- A caller that gets nothing, or a failure, in place of its reply is told of an outage. -/
theorem judge_of_fruitless {verb : Verb} {limit : Duration} {take : Reply → Except Trouble Bool}
    (htake : ∀ text, take (.error text) = .error (.errorReply text)) {r : Option Reply}
    (hr : Fruitless r) :
    ∃ outage, judge verb limit take r = .error (.backendUnavailable outage) := by
  rcases hr with rfl | ⟨text, rfl⟩
  · exact ⟨_, rfl⟩
  · exact ⟨_, judge_of_error (htake text)⟩

theorem outage_of_fruitless {u : Ticket} {q : Query} (hch : Changes u.call)
    (hq : u.query? = some q) {r : Option Reply} (hr : Fruitless r) :
    ∃ outage, q.settle r = .error (.backendUnavailable outage) := by
  cases hd : u.client.dispatch u.call with
  | settled a => simp [Ticket.query?, hd] at hq
  | sent q' =>
      obtain rfl : q' = q := by simpa [Ticket.query?, hd] using hq
      rcases hch with ⟨key, ttl, hcall⟩ | ⟨key, hcall⟩
      · rw [hcall] at hd
        obtain ⟨px, -, rfl⟩ := Store.tryAcquire_of_sent hd
        exact judge_of_fruitless (fun _ => rfl) hr
      · rw [hcall] at hd
        rw [Store.release_of_sent hd]
        exact judge_of_fruitless (fun _ => rfl) hr

/-- A caller of a SET is told whether the key was free, and after the SET the key is live. -/
theorem Execution.set_verdict {e : Execution} {key : String} {px : Nat}
    (hcmd : e.command = .setNxPx key px) (hpx : 0 < px) (limit : Duration) :
    judge .setNxPx limit Reply.wasSet (some e.reply) = .ok (!e.before.isLive key) ∧
      e.after.isLive key = true := by
  rw [Execution.reply, Execution.after, hcmd]
  cases hlive : e.before.isLive key with
  | true =>
      refine ⟨by simp [Keyspace.execute, hlive, judge, Reply.wasSet, bounded], ?_⟩
      simp [Keyspace.execute, hlive]
  | false =>
      refine ⟨by simp [Keyspace.execute, hlive, judge, Reply.wasSet, bounded], ?_⟩
      simpa [Keyspace.execute, hlive] using e.before.isLive_put key hpx

/-- What has been carried out for a ticket is the command of its call. -/
theorem Consistent.command_eq {t : Traffic} (hc : t.Consistent) {i : Nat} {u : Ticket} {q : Query}
    (hu : t.tickets[i]? = some u) (hq : u.query? = some q) {e : Execution} (he : e ∈ t.log)
    (htick : e.ticket = i) : e.command = q.command := by
  obtain ⟨v, q', hv, hq', hcmd⟩ := hc.own e he
  rw [htick, hu] at hv
  cases hv
  rw [hq] at hq'
  cases hq'
  exact hcmd

/-- A yes or a no to an attempt to acquire is the verdict of its own SET. -/
theorem Consistent.attempt {t : Traffic} (hc : t.Consistent) {i : Nat} {key : String}
    {ttl : Duration} {b : Bool} (ha : t.Answered i (.tryAcquire key ttl) (.ok b)) :
    ∃ p, t.Attempt i p key ttl (!b) := by
  obtain ⟨u, hu, hcall, hans⟩ := ha
  have hs := hc.sound i u hu
  cases hd : u.client.dispatch u.call with
  | settled a =>
      have hset := hs.settled a hd
      rw [hcall] at hd
      obtain ⟨e, rfl⟩ := Store.tryAcquire_of_settled hd
      rw [hans] at hset
      cases hset
  | sent q =>
      have hq : u.query? = some q := by simp [Ticket.query?, hd]
      rcases hs.answered _ _ hq hans with ⟨_, -, -, e, he, htick, hb⟩ | ⟨r, hr, hb⟩
      · rw [hcall] at hd
        obtain ⟨px, hpx, rfl⟩ := Store.tryAcquire_of_sent hd
        have hcmd := hc.command_eq hu hq he htick
        obtain ⟨p, hp⟩ := List.getElem?_of_mem he
        obtain ⟨hverdict, hafter⟩ := Execution.set_verdict hcmd (pxMillis_pos hpx)
          u.client.opTimeout
        have hlive : e.before.isLive key = !b := by
          rw [Except.ok.inj (hb.trans hverdict), Bool.not_not]
        exact ⟨p, ⟨e, px, hp, htick, hpx, hcmd, hlive, hafter⟩⟩
      · obtain ⟨outage, hout⟩ := outage_of_fruitless (Or.inl ⟨key, ttl, hcall⟩) hq hr
        rw [hout] at hb
        cases hb

/-- No command is carried out twice. -/
theorem Consistent.once_getElem {t : Traffic} (hc : t.Consistent) {p q : Nat} {e e' : Execution}
    (hp : t.log[p]? = some e) (hq : t.log[q]? = some e') (htick : e.ticket = e'.ticket) :
    p = q := by
  have hlt : p < (t.log.map (·.ticket)).length := by
    simpa using (List.getElem?_eq_some_iff.mp hp).1
  exact (List.getElem?_inj hlt hc.once).mp (by simp [hp, hq, htick])

/-- Two SETs that find one key free are apart. -/
theorem apart_of_lt {t : Traffic} (hl : Ledger t.log t.keys) {i j p q : Nat} {key : String}
    {ttl ttl' : Duration} (hp : t.Attempt i p key ttl false) (hq : t.Attempt j q key ttl' false)
    (hlt : p < q) : Apart t.log key p q := by
  obtain ⟨e, px, hp, -, -, hcmd, hfree, -⟩ := hp.set
  obtain ⟨e', px', hq, -, -, hcmd', hfree', -⟩ := hq.set
  refine ⟨hlt, e, e', px, hp, hq, hcmd, ?_⟩
  rcases hl.spaced p q e e' key _ _ hlt hp hq ⟨px, hcmd, hfree, rfl⟩ ⟨px', hcmd', hfree', rfl⟩ with
    hdel | hle
  · exact Or.inr hdel
  · exact Or.inl hle

/-- Who is told that a key is its own, that it is not, or that nothing can be told. -/
structure Excludes (t : Traffic) : Prop where
  /-- Two calls that are granted one key have the end of the first lifetime, or a deletion of the
  key, between their SETs. -/
  separated : ∀ i j key ttl ttl', i ≠ j → t.Answered i (.tryAcquire key ttl) (.ok true) →
    t.Answered j (.tryAcquire key ttl') (.ok true) →
    ∃ p q, t.Attempt i p key ttl false ∧ t.Attempt j q key ttl' false ∧
      (Apart t.log key p q ∨ Apart t.log key q p)
  /-- A call is granted a key only by its own SET, which creates it. -/
  granted : ∀ i key ttl, t.Answered i (.tryAcquire key ttl) (.ok true) →
    ∃ p, t.Attempt i p key ttl false
  /-- A call is denied a key only by its own SET, which finds it live. -/
  denied : ∀ i key ttl, t.Answered i (.tryAcquire key ttl) (.ok false) →
    ∃ p, t.Attempt i p key ttl true
  /-- A call whose reply does not arrive within its limit is told of an outage by then, whatever
  becomes of its command. -/
  unavailable : ∀ (i : Nat) u q, t.tickets[i]? = some u → Changes u.call → u.query? = some q →
    (∀ a, u.arrived = some a → u.deadline < a) →
    u.answer = none ∧ t.now ≤ u.deadline ∨
      ∃ outage, u.answer = some (.error (.backendUnavailable outage))
  /-- No command is carried out twice. -/
  once : ∀ (p q : Nat) e e', t.log[p]? = some e → t.log[q]? = some e' → e.ticket = e'.ticket →
    p = q

/-- **Mutual exclusion.** However calls of any number of clients, their commands, replies and
timers, expiry and deletions interleave, and whatever is lost: of the clients that are told that a
key is theirs, the lifetimes on the server are apart; a yes and a no are verdicts of the server on
the caller's own command; and a call without its reply in time is told of an outage. -/
theorem acquisitions_exclude (now : Nat) (keys : Keyspace) (events : List Event) :
    Excludes (run { now, keys } events) := by
  obtain ⟨hc, hl⟩ := invariant_run (Consistent.start now keys) (Ledger.start keys) events
  refine ⟨?_, fun i key ttl ha => hc.attempt ha, fun i key ttl ha => hc.attempt ha, ?_,
    fun p q e e' hp hq htick => hc.once_getElem hp hq htick⟩
  · intro i j key ttl ttl' hij hi hj
    obtain ⟨p, hp⟩ := hc.attempt hi
    obtain ⟨q, hq⟩ := hc.attempt hj
    refine ⟨p, q, hp, hq, ?_⟩
    rcases Nat.lt_trichotomy p q with hlt | rfl | hgt
    · exact Or.inl (apart_of_lt hl hp hq hlt)
    · -- One command belongs to one call.
      obtain ⟨e, -, he, rfl, -⟩ := hp.set
      obtain ⟨e', -, he', rfl, -⟩ := hq.set
      rw [he] at he'
      cases he'
      exact absurd rfl hij
    · exact Or.inr (apart_of_lt hl hq hp hgt)
  · intro i u q hu hch hq hlate
    have hs := hc.sound i u hu
    cases hans : u.answer with
    | none => exact Or.inl ⟨rfl, hs.waiting hans⟩
    | some a =>
        rcases hs.answered q a hq hans with ⟨at', hat, hle, -⟩ | ⟨r, hr, ha⟩
        · exact absurd hle (Nat.not_le_of_lt (hlate at' hat))
        · obtain ⟨outage, hout⟩ := outage_of_fruitless hch hq hr
          exact Or.inr ⟨outage, by rw [ha, hout]⟩

/-- The reply to a first client is lost, and it is told of an outage although the key is set; a
second client is told no, and after the end of the lifetime yes. -/
example :
    let store : Store :=
      { address := ⟨"redis", none, none, .named "h", 6379, none⟩, endpoint := "redis://h",
        opTimeout := .ofMillis 50, status := .connected, pool := some { links := [0] } }
    let call : Event := .call store (.tryAcquire "k" (.ofMillis 100))
    let t := run {} [call, .execute 0, .lose 0, .elapse 51, call, .execute 1, .arrive 1,
      .advance 100, call, .execute 2, .arrive 2]
    t.tickets.map (·.answer) =
      [some (.error (.backendUnavailable (.timedOut .setNxPx (.ofMillis 50)))),
        some (.ok false), some (.ok true)] := by
  rfl

end Traffic

end KeyLease.Redis
