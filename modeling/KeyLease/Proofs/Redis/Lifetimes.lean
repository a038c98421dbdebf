import KeyLease.Proofs.Redis.Exclusion
import KeyLease.Proofs.Redis.Serving

set_option autoImplicit false

/-!
# How long a lease lasts on a server

A server counts times to live in whole milliseconds, so a SET carries a time to live rounded: up to
one millisecond if it is shorter, down to whole milliseconds if it is longer. A key that is granted
is not set again for as many milliseconds, unless it is deleted (`Granted.lasts_px`). Whether that
is as long as the caller has asked for is decided by the time to live alone: `lease_lasts_iff`.
-/

namespace KeyLease.Redis

namespace Traffic

/-! ## Leases on the server -/

/-- The `i`-th call has been granted the key for `ttl`, and `e`, the `p`-th command of the server,
is its SET. -/
structure Granted (t : Traffic) (i p : Nat) (key : String) (ttl : Duration) (e : Execution) :
    Prop where
  answered : t.Answered i (.tryAcquire key ttl) (.ok true)
  executed : t.log[p]? = some e
  own : e.ticket = i

/-- Where a key is granted for `ttl`, no other call is granted it by a SET that the server carries
out before that time is over, unless the key is deleted in between. -/
def Lasts (t : Traffic) (key : String) (ttl : Duration) : Prop :=
  ∀ i j p q ttl' e e', t.Granted i p key ttl e → t.Granted j q key ttl' e' → p < q →
    e.before.now * 1000000 + ttl.nanos ≤ e'.before.now * 1000000 ∨ DeletedBetween t.log key p q

section

variable {t : Traffic} {i p : Nat} {key : String} {ttl : Duration} {e : Execution}

/-- The SET of a granted call creates the key, for the milliseconds of its time to live. -/
theorem Granted.creates (hg : t.Granted i p key ttl e) (hc : t.Consistent) {px : Nat}
    (hpx : pxMillis ttl = .ok px) : e.Creates key (e.before.now + px) := by
  obtain ⟨p', hattempt⟩ := hc.attempt hg.answered
  obtain ⟨d, px', hd, hown, hpx', hcmd, hfree, -⟩ := hattempt.set
  -- A call has one SET, so it is the one that is asked about.
  obtain rfl : p = p' := hc.once_getElem hg.executed hd (hg.own.trans hown.symm)
  obtain rfl : e = d := Option.some.inj (hg.executed.symm.trans hd)
  obtain rfl : px = px' := Except.ok.inj (hpx.symm.trans hpx')
  exact ⟨px, hcmd, hfree, rfl⟩

/-- A granted key is not created again within the milliseconds of its SET, unless it is deleted. -/
theorem Granted.lasts_px (hg : t.Granted i p key ttl e) (hc : t.Consistent)
    (hl : Ledger t.log t.keys) {px : Nat} (hpx : pxMillis ttl = .ok px) {q expiry : Nat}
    {e' : Execution} (hpq : p < q) (hq : t.log[q]? = some e') (hcr : e'.Creates key expiry) :
    e.before.now + px ≤ e'.before.now ∨ DeletedBetween t.log key p q :=
  (hl.spaced p q e e' key _ _ hpq hg.executed hq (hg.creates hc hpx) hcr).symm

/-- If the milliseconds of a SET are no shorter than the time to live, the lease lasts. -/
theorem lasts_of_le_px (hc : t.Consistent) (hl : Ledger t.log t.keys) {px : Nat}
    (hpx : pxMillis ttl = .ok px) (hle : ttl.nanos ≤ px * 1000000) : t.Lasts key ttl := by
  intro i j p q ttl' e e' hg hg' hpq
  obtain ⟨q', hattempt⟩ := hc.attempt hg'.answered
  obtain ⟨-, px', -, -, hpx', -⟩ := hattempt.set
  rcases hg.lasts_px hc hl hpx hpq hg'.executed (hg'.creates hc hpx') with hend | hdel
  · left
    calc e.before.now * 1000000 + ttl.nanos
        ≤ e.before.now * 1000000 + px * 1000000 := Nat.add_le_add_left hle _
      _ = (e.before.now + px) * 1000000 := (Nat.add_mul _ _ _).symm
      _ ≤ e'.before.now * 1000000 := Nat.mul_le_mul_right _ hend
  · exact Or.inr hdel

end

/-! ## A lease that ends early -/

/-- What a connected store sends to acquire a key for an accepted time to live. -/
theorem dispatch_tryAcquire {s : Store} (hpool : s.pool.isSome) {key : String} (hkey : key ≠ "")
    {ttl : Duration} (httl : ensureTtl ttl = .ok ()) :
    s.dispatch (.tryAcquire key ttl)
      = .sent ⟨.setNxPx, .setNxPx key (max ttl.wholeMillis 1),
          judge .setNxPx s.opTimeout Reply.wasSet⟩ := by
  obtain ⟨pool, hpool⟩ := Option.isSome_iff_exists.mp hpool
  simp only [Store.dispatch, ensureKey_eq_ok_iff.mpr hkey, httl, hpool, pxMillis_of_accepted httl]

/-- A call to acquire a free key, with nothing lost and no delay: it is granted. -/
theorem run_granted {t : Traffic} {s : Store} (hpool : s.pool.isSome) {key : String}
    (hkey : key ≠ "") {ttl : Duration} (httl : ensureTtl ttl = .ok ())
    (hfree : t.keys.isLive key = false) :
    let c : Call := .tryAcquire key ttl
    let px := max ttl.wholeMillis 1
    t.run [.call s c, .execute t.tickets.length, .arrive t.tickets.length]
      = { now := t.now
          keys := t.keys.put key px
          tickets := t.tickets ++
            [{ client := s, call := c, sent := t.now, arrived := some t.now
               answer := some (.ok true) }]
          log := t.log ++ [⟨t.tickets.length, .setNxPx key px, t.keys⟩] } := by
  have hd := dispatch_tryAcquire hpool hkey httl
  simp [run, step, execute, update, Ticket.issue, Ticket.query?, hd, Ticket.arrive, Ticket.settle,
    Execution.reply, Execution.after, List.modify_eq_take_drop, Keyspace.execute, hfree, judge,
    Reply.wasSet, bounded]

/-- Two clients ask for a key one after the other, with nothing lost and no delay, and milliseconds
pass on the server between their calls. -/
def inTurn (s s' : Store) (key : String) (ttl : Duration) (ms : Nat) : List Event :=
  [.call s (.tryAcquire key ttl), .execute 0, .arrive 0, .advance ms,
    .call s' (.tryAcquire key ttl), .execute 1, .arrive 1]

/-- The second client is granted the key as soon as the milliseconds of the first SET are over. -/
theorem granted_inTurn {s s' : Store} (hpool : s.pool.isSome) (hpool' : s'.pool.isSome)
    {key : String} (hkey : key ≠ "") {ttl : Duration} (httl : ensureTtl ttl = .ok ()) :
    let px := max ttl.wholeMillis 1
    let t := run {} (inTurn s s' key ttl px)
    let e : Execution := ⟨0, .setNxPx key px, {}⟩
    let e' : Execution := ⟨1, .setNxPx key px, (Keyspace.put {} key px).advance px⟩
    t.Granted 0 0 key ttl e ∧ t.Granted 1 1 key ttl e' ∧ t.log = [e, e'] := by
  intro px t e e'
  have hover : ((Keyspace.put {} key px).advance px).isLive key = false := by
    simp [Keyspace.isLive, Keyspace.advance, Keyspace.put, Leases.isLive_insert]
  let between : Traffic :=
    { keys := (Keyspace.put {} key px).advance px
      tickets := [{ client := s, call := .tryAcquire key ttl, sent := 0, arrived := some 0,
                    answer := some (.ok true) }]
      log := [e] }
  have hfirst : run {} [.call s (.tryAcquire key ttl), .execute 0, .arrive 0, .advance px]
      = between := congrArg (·.step (.advance px)) (run_granted (t := {}) hpool hkey httl rfl)
  have hsecond := run_granted (t := between) hpool' hkey httl hover
  have ht : t = between.run [.call s' (.tryAcquire key ttl), .execute 1, .arrive 1] := by
    rw [← hfirst]
    rfl
  rw [ht]
  simp only [between, List.length_singleton, List.singleton_append] at hsecond ⊢
  rw [hsecond]
  exact ⟨⟨⟨_, rfl, rfl, rfl⟩, rfl, rfl⟩, ⟨⟨_, rfl, rfl, rfl⟩, rfl, rfl⟩, rfl⟩

/-- A time to live that is longer than a millisecond and not of whole milliseconds loses what is
over: the next client is granted the key too early. -/
theorem not_lasts_inTurn {s s' : Store} (hpool : s.pool.isSome) (hpool' : s'.pool.isSome)
    {key : String} (hkey : key ≠ "") {ttl : Duration} (httl : ensureTtl ttl = .ok ())
    (hlong : max ttl.wholeMillis 1 * 1000000 < ttl.nanos) :
    ¬ (run {} (inTurn s s' key ttl (max ttl.wholeMillis 1))).Lasts key ttl := by
  obtain ⟨hg, hg', hlog⟩ := granted_inTurn hpool hpool' hkey httl
  intro hlasts
  rcases hlasts 0 1 0 1 ttl _ _ hg hg' (by omega) with hend | ⟨r, d, hr, hr', -⟩
  · simp only [Keyspace.put, Keyspace.advance] at hend
    omega
  · omega

/-! ## The times to live that last -/

/-- A time to live goes to the server in full if it is at most a millisecond or a whole number of
them. -/
theorem le_px_iff {ttl : Duration} :
    ttl.nanos ≤ max ttl.wholeMillis 1 * 1000000 ↔ ttl ≤ .ofMillis 1 ∨ ∃ n, ttl = .ofMillis n := by
  have hle : ttl ≤ .ofMillis 1 ↔ ttl.nanos ≤ 1000000 := Iff.rfl
  rw [hle, Duration.wholeMillis]
  constructor
  · intro h
    by_cases hshort : ttl.nanos ≤ 1000000
    · exact Or.inl hshort
    · refine Or.inr ⟨ttl.nanos / 1000000, ?_⟩
      rcases ttl with ⟨n⟩
      simp only [Duration.ofMillis, Duration.mk.injEq] at h hshort ⊢
      omega
  · rintro (hshort | ⟨n, rfl⟩)
    · omega
    · simp only [Duration.ofMillis]
      omega

/-- **A lease lasts its time to live, if the milliseconds of its SET do.** Take an accepted time to
live and a key. Whatever happens between clients and the server, a call that is granted the key
keeps it on the server for the milliseconds of the time to live, rounded down but at least one,
against every SET by then, unless the key is deleted. That is as long as the time to live in every
run exactly if the time to live is at most a millisecond or a whole number of milliseconds. -/
theorem lease_lasts_iff {key : String} (hkey : key ≠ "") {ttl : Duration}
    (httl : ensureTtl ttl = .ok ()) :
    (∀ now keys events, let t := run { now, keys } events
      ∀ i p e, t.Granted i p key ttl e → ∀ (q : Nat) e' expiry, p < q → t.log[q]? = some e' →
        e'.Creates key expiry →
          e.before.now + max ttl.wholeMillis 1 ≤ e'.before.now ∨ DeletedBetween t.log key p q) ∧
    ((∀ now keys events, (run { now, keys } events).Lasts key ttl) ↔
      ttl ≤ .ofMillis 1 ∨ ∃ n, ttl = .ofMillis n) := by
  have hpx := pxMillis_of_accepted httl
  have hinv (now : Nat) (keys : Keyspace) (events : List Event) :=
    invariant_run (Consistent.start now keys) (Ledger.start keys) events
  refine ⟨?_, ?_⟩
  · intro now keys events t i p e hg q e' expiry hpq hq hcr
    obtain ⟨hc, hl⟩ := hinv now keys events
    exact hg.lasts_px hc hl hpx hpq hq hcr
  · rw [← le_px_iff]
    constructor
    · intro hlasts
      refine Nat.le_of_not_lt fun hlong => ?_
      let s : Store :=
        { address := ⟨"redis", none, none, .named "h", 6379, none⟩, endpoint := "redis://h"
          opTimeout := .ofMillis 50, status := .connected, pool := some { links := [0] } }
      have hpool : s.pool.isSome := rfl
      exact not_lasts_inTurn hpool hpool hkey httl hlong (hlasts _ _ _)
    · intro hle now keys events
      obtain ⟨hc, hl⟩ := hinv now keys events
      exact lasts_of_le_px hc hl hpx hle

/-- Two milliseconds last in every run, one and a half do not. -/
theorem lease_lasts_iff_job :
    let short : Duration := ⟨1500000⟩
    "job" ≠ "" ∧ ensureTtl (.ofMillis 2) = .ok () ∧ ensureTtl short = .ok () ∧
      (∀ now keys events, (run { now, keys } events).Lasts "job" (.ofMillis 2)) ∧
      ¬ ∀ now keys events, (run { now, keys } events).Lasts "job" short := by
  intro short
  have hkey : "job" ≠ "" := by decide
  have hwhole : ensureTtl (.ofMillis 2) = .ok () := ensureTtl_eq_ok_iff.mpr (by decide)
  have hshort : ensureTtl short = .ok () := ensureTtl_eq_ok_iff.mpr (by decide)
  refine ⟨hkey, hwhole, hshort, (lease_lasts_iff hkey hwhole).2.mpr (Or.inr ⟨2, rfl⟩), ?_⟩
  intro hlasts
  rcases (lease_lasts_iff hkey hshort).2.mp hlasts with hle | ⟨n, hn⟩
  · exact absurd hle (by decide)
  · have hnanos : 1500000 = n * 1000000 := congrArg Duration.nanos hn
    omega

/-- A client is granted a key for a millisecond and a half. One millisecond later another client is
granted the same key, with no deletion in between. -/
theorem lease_ends_early :
    let one : Store :=
      { address := ⟨"redis", none, none, .named "h", 6379, none⟩, endpoint := "redis://h"
        opTimeout := .ofMillis 50, status := .connected, pool := some { links := [0] } }
    let other : Store := { one with opTimeout := .ofSeconds 3, pool := some { links := [1, 2] } }
    let ttl : Duration := ⟨1500000⟩
    let t := run {} (inTurn one other "k" ttl 1)
    ensureTtl ttl = .ok () ∧
      (∃ e e', t.Granted 0 0 "k" ttl e ∧ t.Granted 1 1 "k" ttl e' ∧ t.log = [e, e'] ∧
        e.command = .setNxPx "k" 1 ∧ e.before.now = 0 ∧ e'.before.now = 1) ∧
      ¬ t.Lasts "k" ttl := by
  intro one other ttl t
  have hkey : "k" ≠ "" := by decide
  have httl : ensureTtl ttl = .ok () := ensureTtl_eq_ok_iff.mpr (by decide)
  have hone : one.pool.isSome := rfl
  have hother : other.pool.isSome := rfl
  have hpx : max ttl.wholeMillis 1 = 1 := by decide
  have hgranted := granted_inTurn hone hother hkey httl
  have hends := not_lasts_inTurn hone hother hkey httl (by decide)
  rw [hpx] at hgranted hends
  obtain ⟨hg, hg', hlog⟩ := hgranted
  exact ⟨httl, ⟨_, _, hg, hg', hlog, rfl, rfl, rfl⟩, hends⟩

end Traffic

end KeyLease.Redis
