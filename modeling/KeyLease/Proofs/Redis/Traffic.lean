import KeyLease.Proofs.Log
import KeyLease.Proofs.Redis.Calls

set_option autoImplicit false

/-!
# Traffic between many clients and one server

Any number of clients call their Redis stores, and all stores share one server. A command is on its
way for as long as it likes, is carried out whole when it arrives, and its reply is on its way back
for as long as it likes; either may be lost, and a link may report a failure in place of a reply. No
command is sent twice. A caller waits for its reply up to the limit of its store and is answered
without one after that, whatever its command does later. The clients' clock and the server's clock
move on their own.

A call is a `Ticket`, numbered in the order in which calls are made. The server's log has an
`Execution` for each command that it has carried out, in its order, with the keys before it.
`Traffic.Consistent` is the invariant that ties the tickets to the log: who has been told what, and
by which execution.
-/

namespace KeyLease.Redis

/-! ## Tickets -/

/-- Where the command of a call is. -/
inductive Passage
  /-- On its way to the server. -/
  | going
  /-- Carried out, and the reply on its way back. -/
  | returning (reply : Reply)
  /-- Nothing is on its way: the reply has arrived, or something was lost, or nothing was sent. -/
  | over

/-- A call that a client has made through its store. Instants and delays are in milliseconds. -/
structure Ticket where
  client : Store
  call : Call
  sent : Nat
  passage : Passage := .over
  /-- When the reply arrived, in time or not. -/
  arrived : Option Nat := none
  /-- What the client was told. -/
  answer : Option Answer := none

namespace Ticket

/-- The command of the call, if it sends one. -/
def query? (t : Ticket) : Option Query :=
  match t.client.dispatch t.call with
  | .sent q => some q
  | .settled _ => none

/-- The last instant at which a reply counts; a client's timer counts whole milliseconds. -/
def deadline (t : Ticket) : Nat := t.sent + t.client.opTimeout.timerMillis

/-- The ticket of a call that is made at an instant. -/
def issue (client : Store) (call : Call) (now : Nat) : Ticket :=
  match client.dispatch call with
  | .settled a => { client, call, sent := now, answer := some a }
  | .sent _ => { client, call, sent := now, passage := .going }

/-- The caller makes its answer of a reply, or of none; if it has been answered it takes no
notice. -/
def settle (t : Ticket) (reply : Option Reply) : Ticket :=
  match t.answer, t.query? with
  | none, some q => { t with answer := some (q.settle reply) }
  | _, _ => t

/-- The reply arrives. -/
def arrive (t : Ticket) (now : Nat) : Ticket :=
  match t.passage with
  | .returning reply => { t.settle (some reply) with passage := .over, arrived := some now }
  | _ => t

/-- Whatever is on its way is lost. -/
def lose (t : Ticket) : Ticket := { t with passage := .over }

end Ticket

/-! ## The traffic -/

/-- A command that the server has carried out: the ticket that it was sent for, and the keys
before. -/
structure Execution where
  ticket : Nat
  command : Command
  before : Keyspace

namespace Execution

def reply (e : Execution) : Reply := (e.before.execute e.command).1

def after (e : Execution) : Keyspace := (e.before.execute e.command).2

end Execution

/-- All clients with their calls, the server's keys and the server's log. -/
structure Traffic where
  now : Nat := 0
  keys : Keyspace := {}
  tickets : List Ticket := []
  log : List Execution := []

/-- What can happen next. -/
inductive Event
  /-- A client makes a call through its store. -/
  | call (client : Store) (c : Call)
  /-- The command of a ticket reaches the server and is carried out. -/
  | execute (ticket : Nat)
  /-- The command of a ticket, or the reply to it, is lost on its way. -/
  | lose (ticket : Nat)
  /-- The reply for a ticket arrives. -/
  | arrive (ticket : Nat)
  /-- The link of a ticket reports a failure, wherever its command is. -/
  | fail (ticket : Nat) (text : String)
  /-- The timer of a caller goes off, if its instant has come. -/
  | expire (ticket : Nat)
  /-- The clients' clock moves; timers whose instant passes go off. -/
  | elapse (ms : Nat)
  /-- The server's clock moves. -/
  | advance (ms : Nat)

namespace Traffic

/-- The server carries out the command of a ticket, if it is on its way. -/
def execute (t : Traffic) (i : Nat) : Traffic :=
  match t.tickets[i]? with
  | none => t
  | some ticket =>
      match ticket.passage, ticket.query? with
      | .going, some q =>
          let e : Execution := { ticket := i, command := q.command, before := t.keys }
          { t with
            keys := e.after
            log := t.log ++ [e]
            tickets := t.tickets.set i { ticket with passage := .returning e.reply } }
      | _, _ => t

/-- Something happens to the ticket of a number. -/
def update (t : Traffic) (i : Nat) (f : Ticket → Ticket) : Traffic :=
  { t with tickets := t.tickets.modify i f }

/-- One event. -/
def step (t : Traffic) : Event → Traffic
  | .call client c => { t with tickets := t.tickets ++ [.issue client c t.now] }
  | .execute i => t.execute i
  | .lose i => t.update i Ticket.lose
  | .arrive i => t.update i (·.arrive t.now)
  | .fail i text => t.update i (·.settle (some (.error text)))
  | .expire i => t.update i fun u => if u.deadline ≤ t.now then u.settle none else u
  | .elapse ms =>
      let now := t.now + ms
      { t with
        now
        tickets := t.tickets.map fun u => if u.deadline < now then u.settle none else u }
  | .advance ms => { t with keys := t.keys.advance ms }

/-- One event after the other. -/
def run (t : Traffic) (events : List Event) : Traffic := events.foldl step t

end Traffic

/-! ## The invariant -/

/-- What a caller has in place of a reply: nothing within its limit, or the failure of its link. -/
def Fruitless (reply : Option Reply) : Prop := reply = none ∨ ∃ text, reply = some (.error text)

/-- What holds of the ticket of number `i` at an instant, given the server's log. -/
structure Ticket.Sound (log : List Execution) (now i : Nat) (u : Ticket) : Prop where
  /-- A call that sends nothing has been answered. -/
  settled : ∀ a, u.client.dispatch u.call = .settled a → u.answer = some a
  going : u.passage = .going → ∀ e ∈ log, e.ticket ≠ i
  returning : ∀ r, u.passage = .returning r → ∃ e ∈ log, e.ticket = i ∧ e.reply = r
  underway : u.passage ≠ .over → u.arrived = none
  /-- A caller is told what the reply to its own command says, in time, or that it got none. -/
  answered : ∀ q a, u.query? = some q → u.answer = some a →
    (∃ t, u.arrived = some t ∧ t ≤ u.deadline ∧
      ∃ e ∈ log, e.ticket = i ∧ a = q.settle (some e.reply)) ∨
    ∃ r, Fruitless r ∧ a = q.settle r
  waiting : u.answer = none → now ≤ u.deadline

namespace Ticket.Sound

variable {log : List Execution} {now i : Nat} {u : Ticket}

theorem issue (client : Store) (c : Call) (hnew : ∀ e ∈ log, e.ticket ≠ i) :
    Sound log now i (.issue client c now) := by
  unfold Ticket.issue
  cases hd : client.dispatch c with
  | settled a =>
      refine ⟨?_, nofun, nofun, fun _ => rfl, ?_, nofun⟩
      · intro a' ha'
        exact (Dispatch.settled.inj (hd.symm.trans ha')) ▸ rfl
      · intro q a' hq
        simp [query?, hd] at hq
  | sent q =>
      refine ⟨?_, fun _ => hnew, nofun, fun _ => rfl, ?_, ?_⟩
      · intro a ha
        exact absurd (hd.symm.trans ha) nofun
      · intro q' a _ ha
        cases ha
      · intro _
        exact Nat.le_add_right now client.opTimeout.timerMillis

theorem lose (hs : Sound log now i u) : Sound log now i u.lose :=
  ⟨hs.settled, nofun, nofun, fun h => absurd rfl h, hs.answered, hs.waiting⟩

/-- A ticket that has a query is not settled from the start. -/
theorem settled_of_query? {q : Query} (hq : u.query? = some q) {P : Answer → Prop} :
    ∀ a, u.client.dispatch u.call = .settled a → P a := by
  intro a hset
  simp [query?, hset] at hq

/-- Answering without a reply is sound at any time. -/
theorem settle (hs : Sound log now i u) {r : Option Reply} (hr : Fruitless r) :
    Sound log now i (u.settle r) := by
  unfold Ticket.settle
  split
  · rename_i q ha hq
    refine ⟨settled_of_query? hq, hs.going, hs.returning, hs.underway, ?_, nofun⟩
    intro q' a hq' ha'
    have hqq : q' = q := Option.some.inj (hq'.symm.trans hq)
    exact Or.inr ⟨r, hr, by rw [hqq, ← Option.some.inj ha']⟩
  · exact hs

/-- A reply that arrives while the caller waits is in time, and it is the reply to the caller's own
command. -/
theorem arrive (hs : Sound log now i u) : Sound log now i (u.arrive now) := by
  unfold Ticket.arrive
  split
  · rename_i reply hpass
    obtain ⟨e, he, htick, hrep⟩ := hs.returning reply hpass
    have hfresh : u.arrived = none := hs.underway (by simp [hpass])
    unfold Ticket.settle
    split
    · rename_i q ha hq
      refine ⟨settled_of_query? hq, nofun, nofun, fun h => absurd rfl h, ?_, nofun⟩
      intro q' a hq' ha'
      have hqq : q' = q := Option.some.inj (hq'.symm.trans hq)
      refine Or.inl ⟨now, rfl, hs.waiting ha, e, he, htick, ?_⟩
      rw [hqq, hrep, ← Option.some.inj ha']
    · -- The caller has given up: no reply has arrived before this one.
      refine ⟨hs.settled, nofun, nofun, fun h => absurd rfl h, ?_, hs.waiting⟩
      intro q' a' hq' ha'
      rcases hs.answered q' a' hq' ha' with ⟨t, ht, -⟩ | hnone
      · exact absurd (hfresh.symm.trans ht) nofun
      · exact Or.inr hnone
  · exact hs

/-- Once its timer has gone off a ticket is answered. -/
theorem answer_settle (hs : Sound log now i u) (r : Option Reply) :
    (u.settle r).answer ≠ none := by
  unfold Ticket.settle
  cases hd : u.client.dispatch u.call with
  | settled a => simp [query?, hd, hs.settled a hd]
  | sent q =>
      cases ha : u.answer with
      | none => simp [query?, hd]
      | some a => simp [ha]

/-- The clock moves, and the timers whose instants pass go off. -/
theorem elapse (hs : Sound log now i u) (later : Nat) :
    Sound log later i (if u.deadline < later then u.settle none else u) := by
  by_cases hlt : u.deadline < later
  · rw [if_pos hlt]
    have hg := hs.settle (Or.inl rfl)
    exact ⟨hg.settled, hg.going, hg.returning, hg.underway, hg.answered,
      fun h => absurd h (hs.answer_settle none)⟩
  · rw [if_neg hlt]
    exact ⟨hs.settled, hs.going, hs.returning, hs.underway, hs.answered,
      fun _ => Nat.le_of_not_lt hlt⟩

/-- Another ticket's command is carried out. -/
theorem append (hs : Sound log now i u) {e : Execution} (hne : e.ticket ≠ i) :
    Sound (log ++ [e]) now i u := by
  have hmem : ∀ {d : Execution}, d ∈ log → d ∈ log ++ [e] := List.mem_append_left _
  refine ⟨hs.settled, ?_, ?_, hs.underway, ?_, hs.waiting⟩
  · intro hp d hd
    rcases List.mem_append.mp hd with hd | hd
    · exact hs.going hp d hd
    · rwa [List.mem_singleton.mp hd]
  · intro r hp
    obtain ⟨d, hd, htick, hrep⟩ := hs.returning r hp
    exact ⟨d, hmem hd, htick, hrep⟩
  · intro q a hq ha
    rcases hs.answered q a hq ha with ⟨t, ht, hle, d, hd, htick, hrep⟩ | hnone
    · exact Or.inl ⟨t, ht, hle, d, hmem hd, htick, hrep⟩
    · exact Or.inr hnone

/-- The ticket's own command is carried out. -/
theorem execute (hs : Sound log now i u) {e : Execution} (hgoing : u.passage = .going)
    (htick : e.ticket = i) :
    Sound (log ++ [e]) now i { u with passage := .returning e.reply } := by
  refine ⟨hs.settled, nofun, ?_, ?_, ?_, hs.waiting⟩
  · intro r hr
    exact ⟨e, by simp, htick, Passage.returning.inj hr⟩
  · intro _
    exact hs.underway (by simp [hgoing])
  · intro q a hq ha
    rcases hs.answered q a hq ha with ⟨t, ht, hle, d, hd, hdtick, hrep⟩ | hnone
    · exact Or.inl ⟨t, ht, hle, d, List.mem_append_left _ hd, hdtick, hrep⟩
    · exact Or.inr hnone

end Ticket.Sound

/-- The tickets and the log belong together: every ticket is sound, and every execution is the one
execution of its own ticket's command. -/
structure Traffic.Consistent (t : Traffic) : Prop where
  sound : ∀ (i : Nat) u, t.tickets[i]? = some u → u.Sound t.log t.now i
  own : ∀ e ∈ t.log, ∃ u q, t.tickets[e.ticket]? = some u ∧ u.query? = some q ∧
    e.command = q.command
  once : (t.log.map (·.ticket)).Nodup

namespace Ticket

@[simp] theorem query?_settle (u : Ticket) (r : Option Reply) :
    (u.settle r).query? = u.query? := by
  unfold settle
  split <;> rfl

@[simp] theorem query?_lose (u : Ticket) : u.lose.query? = u.query? := rfl

@[simp] theorem query?_arrive (u : Ticket) (now : Nat) : (u.arrive now).query? = u.query? := by
  unfold arrive
  split
  · exact query?_settle u _
  · rfl

end Ticket

namespace Traffic.Consistent

variable {t : Traffic}

theorem start (now : Nat) (keys : Keyspace) : Consistent { now, keys } := by
  refine ⟨fun i u hu => ?_, fun e he => ?_, List.nodup_nil⟩
  · exact absurd hu (by simp)
  · exact absurd he List.not_mem_nil

/-- Numbers of tickets that are not there yet are not in the log. -/
theorem ticket_lt (hc : t.Consistent) {e : Execution} (he : e ∈ t.log) :
    e.ticket < t.tickets.length := by
  obtain ⟨u, q, hu, -⟩ := hc.own e he
  exact (List.getElem?_eq_some_iff.mp hu).1

theorem call (hc : t.Consistent) (client : Store) (c : Call) :
    (t.step (.call client c)).Consistent := by
  have hnew : ∀ e ∈ t.log, e.ticket ≠ t.tickets.length := fun e he =>
    Nat.ne_of_lt (hc.ticket_lt he)
  refine ⟨?_, ?_, hc.once⟩
  · intro i u hu
    rcases Log.getElem?_snoc_eq_some.mp hu with hold | ⟨rfl, rfl⟩
    · exact hc.sound i u hold
    · exact Ticket.Sound.issue client c hnew
  · intro e he
    obtain ⟨u, q, hu, hq⟩ := hc.own e he
    exact ⟨u, q, Log.getElem?_append_of_eq_some hu _, hq⟩

/-- What happens to one ticket keeps the invariant if it keeps the ticket sound. -/
theorem update (hc : t.Consistent) (i : Nat) {f : Ticket → Ticket}
    (hquery : ∀ u, (f u).query? = u.query?)
    (hsound : ∀ u, u.Sound t.log t.now i → (f u).Sound t.log t.now i) :
    (t.update i f).Consistent := by
  refine ⟨?_, ?_, hc.once⟩
  · intro j u hu
    simp only [Traffic.update, List.getElem?_modify, Option.map_eq_map,
      Option.map_eq_some_iff] at hu
    obtain ⟨v, hv, rfl⟩ := hu
    by_cases hij : i = j
    · subst hij
      rw [if_pos rfl]
      exact hsound v (hc.sound i v hv)
    · rw [if_neg hij]
      exact hc.sound j v hv
  · intro e he
    obtain ⟨u, q, hu, hq, hcmd⟩ := hc.own e he
    refine ⟨if i = e.ticket then f u else u, q, ?_, ?_, hcmd⟩
    · simp [Traffic.update, List.getElem?_modify, hu]
    · split
      · rw [hquery, hq]
      · exact hq

theorem elapse (hc : t.Consistent) (ms : Nat) : (t.step (.elapse ms)).Consistent := by
  refine ⟨?_, ?_, hc.once⟩
  · intro i u hu
    simp only [step, List.getElem?_map, Option.map_eq_some_iff] at hu
    obtain ⟨v, hv, rfl⟩ := hu
    exact (hc.sound i v hv).elapse _
  · intro e he
    obtain ⟨u, q, hu, hq, hcmd⟩ := hc.own e he
    refine ⟨if u.deadline < t.now + ms then u.settle none else u, q, ?_, ?_, hcmd⟩
    · simp only [step, List.getElem?_map, hu, Option.map_some]
    · split
      · rw [Ticket.query?_settle, hq]
      · exact hq

theorem execute (hc : t.Consistent) (i : Nat) : (t.execute i).Consistent := by
  unfold Traffic.execute
  cases hi : t.tickets[i]? with
  | none => exact hc
  | some u =>
      simp only
      split
      · rename_i q hgoing hq
        have hs := hc.sound i u hi
        have hlt := (List.getElem?_eq_some_iff.mp hi).1
        refine ⟨?_, ?_, ?_⟩
        · intro j v hv
          by_cases hij : i = j
          · subst hij
            have hvu : v = { u with
                passage := .returning (Execution.reply ⟨i, q.command, t.keys⟩) } := by
              simpa [List.getElem?_set_self hlt] using hv.symm
            rw [hvu]
            exact hs.execute hgoing rfl
          · simp only [List.getElem?_set_ne hij] at hv
            exact (hc.sound j v hv).append hij
        · intro e he
          rcases List.mem_append.mp he with he | he
          · -- A command that is on its way has not been carried out before.
            obtain ⟨v, q', hv, hq', hcmd⟩ := hc.own e he
            have hne : i ≠ e.ticket := fun h => hs.going hgoing e he h.symm
            exact ⟨v, q', by simpa [List.getElem?_set_ne hne] using hv, hq', hcmd⟩
          · rw [List.mem_singleton.mp he]
            exact ⟨_, q, List.getElem?_set_self hlt, hq, rfl⟩
        · rw [List.map_append, List.nodup_append]
          refine ⟨hc.once, by simp, ?_⟩
          intro a ha b hb
          obtain ⟨e, he, rfl⟩ := List.mem_map.mp ha
          simp only [List.map_cons, List.map_nil, List.mem_singleton] at hb
          rw [hb]
          exact hs.going hgoing e he
      · exact hc

/-- One event keeps the invariant. -/
theorem step (hc : t.Consistent) (e : Event) : (t.step e).Consistent := by
  cases e with
  | call client c => exact hc.call client c
  | execute i => exact hc.execute i
  | lose i => exact hc.update i Ticket.query?_lose fun _ hs => hs.lose
  | arrive i => exact hc.update i (Ticket.query?_arrive · _) fun _ hs => hs.arrive
  | fail i text =>
      exact hc.update i (Ticket.query?_settle · _) fun _ hs => hs.settle (Or.inr ⟨text, rfl⟩)
  | expire i =>
      refine hc.update i (fun u => ?_) fun u hs => ?_
      · split
        · exact Ticket.query?_settle u none
        · rfl
      · split
        · exact hs.settle (Or.inl rfl)
        · exact hs
  | elapse ms => exact hc.elapse ms
  | advance ms => exact ⟨hc.sound, hc.own, hc.once⟩

end Traffic.Consistent

/-! ## Calls without delay -/

/-- The keys of the server that a store is connected to, where the server answers at once and as it
should on the link that comes next. -/
def Store.Attends (s : Store) (keys : Keyspace) : Prop :=
  ∃ server pool link l, s.network.server = some server ∧ s.pool = some pool ∧
    pool.links[pool.turn % pool.links.length]? = some link ∧ server.links[link]? = some l ∧
    l.held = none ∧ server.treatments = [] ∧ server.keys = keys

/-- What comes back from a server that answers at once. -/
theorem Store.send_of_attends {s : Store} {keys : Keyspace} (h : s.Attends keys) {pool : Pool}
    (hpool : s.pool = some pool) (c : Command) :
    (s.send pool c).1 = some (keys.execute c).1 ∧
      (s.send pool c).2.network.server.map (·.keys) = some (keys.execute c).2 := by
  obtain ⟨server, pool', link, l, hserver, hpool', hlink, hl, hheld, htreat, rfl⟩ := h
  cases hpool.symm.trans hpool'
  simp [send, hserver, hlink, Server.receive, hl, hheld, Server.carryOut, Server.treatment?,
    htreat, Server.silences, withServer]

namespace Traffic

/-- A call whose command and reply are not delayed is the call of the store itself: the answer is
the same, and so are the keys that it leaves on the server. -/
theorem run_prompt {t : Traffic} {s : Store} (h : s.Attends t.keys) (c : Call) :
    let i := t.tickets.length
    let t' := t.run [.call s c, .execute i, .arrive i]
    t'.tickets[i]?.bind (·.answer) = some (s.perform c).1 ∧
      (s.perform c).2.network.server.map (·.keys) = some t'.keys := by
  cases hd : s.dispatch c with
  | settled a =>
      obtain ⟨server, -, -, -, hserver, -, -, -, -, -, hkeys⟩ := id h
      rw [Store.perform_of_settled hd]
      simp [run, step, execute, update, Ticket.issue, hd, Ticket.arrive, hserver, hkeys]
  | sent q =>
      obtain ⟨pool, hpool, hperform⟩ := Store.perform_of_sent hd
      obtain ⟨hreply, hkeys⟩ := Store.send_of_attends h hpool q.command
      rw [hperform, hreply, hkeys]
      simp [run, step, execute, update, Ticket.issue, Ticket.query?, hd, Ticket.arrive,
        Ticket.settle, Execution.reply, Execution.after]

end Traffic

end KeyLease.Redis
