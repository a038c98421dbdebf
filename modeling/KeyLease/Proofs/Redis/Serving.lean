import KeyLease.Proofs.Memory.Calls
import KeyLease.Proofs.Redis.Calls

set_option autoImplicit false

/-!
# Sessions with a server that does as it is asked

While the server carries out every command at once and answers as usual, a Redis store is no more
than the keys of its server. `Store.Serves` is such a session: each call is answered by the keys
alone, as `Keyspace.answer` says, and leaves such a session behind (`Store.Serves.perform`). It
begins when a store connects to a server that treats no command specially
(`Store.serves_of_connect`), as it can whenever one is in reach (`Store.verified_of_inReach`), and it
lasts while time passes (`Store.Serves.elapse`).
-/

namespace KeyLease.Redis

/-! ## Sessions -/

/-- A connected store, its server and its links: whatever arrives on one of the links is carried
out at once. -/
structure Store.Session (s : Store) (server : Server) (pool : Pool) : Prop where
  connected : s.status = .connected
  listening : s.network.server = some server
  pooled : s.pool = some pool
  linked : pool.links ≠ []
  free : ∀ link ∈ pool.links, ∃ l, server.links[link]? = some l ∧ l.held = none
  plain : server.treatments = []

/-- The store has a session with a server that keeps these keys. -/
def Store.Serves (s : Store) (keys : Keyspace) : Prop :=
  ∃ server pool, s.Session server pool ∧ server.keys = keys

/-- What keys make of a call: the answer and the keys after it. -/
def Keyspace.answer (ks : Keyspace) : Call → Answer × Keyspace
  | .tryAcquire key ttl =>
      match ensureKey key, ensureTtl ttl with
      | .error e, _ => (.error e, ks)
      | _, .error e => (.error e, ks)
      | .ok (), .ok () =>
          if ks.isLive key then (.ok false, ks) else (.ok true, ks.put key (max ttl.wholeMillis 1))
  | .release key =>
      match ensureKey key with
      | .error e => (.error e, ks)
      | .ok () => (.ok (ks.isLive key), ks.drop key)
  | .exists key => (.ok (!key.isEmpty && ks.isLive key), ks)
  | .check _ => (.ok true, ks)

/-! ## Exchanges -/

/-- A command on a free link of a server that treats it as usual. -/
theorem Server.receive_of_plain {server : Server} {link : Nat} {l : Link}
    (hl : server.links[link]? = some l) (hheld : l.held = none) (hplain : server.treatments = [])
    (c : Command) :
    server.receive link c
      = (some (server.keys.execute c).1,
          { server with keys := (server.keys.execute c).2, log := server.log ++ [c.words] }) := by
  simp [receive, hl, hheld, carryOut, treatment?, hplain, silences]

/-- A pool that has links has one whose turn it is. -/
theorem Pool.exists_next {pool : Pool} (hlinked : pool.links ≠ []) :
    ∃ link ∈ pool.links, pool.links[pool.turn % pool.links.length]? = some link := by
  have hlt : pool.turn % pool.links.length < pool.links.length :=
    Nat.mod_lt _ (List.length_pos_iff.mpr hlinked)
  exact ⟨_, List.getElem_mem hlt, List.getElem?_eq_getElem hlt⟩

/-- Every accepted time to live fits a command. -/
theorem pxMillis_of_accepted {ttl : Duration} (h : ensureTtl ttl = .ok ()) :
    pxMillis ttl = .ok (max ttl.wholeMillis 1) := by
  have hle : ttl.nanos ≤ 31536000 * 1000000000 + 0 := (ensureTtl_eq_ok_iff.mp h).2
  refine if_pos ?_
  unfold Duration.wholeMillis
  omega

theorem Keyspace.anyKey_countReply (yes : Bool) : Reply.anyKey (countReply yes) = .ok yes := by
  cases yes <;> rfl

namespace Store

variable {s : Store} {keys : Keyspace}

theorem Serves.send (h : s.Serves keys) {pool : Pool} (hpool : s.pool = some pool) (c : Command) :
    (s.send pool c).1 = some (keys.execute c).1 ∧ (s.send pool c).2.Serves (keys.execute c).2 := by
  obtain ⟨server, pool', hs, rfl⟩ := h
  cases hpool.symm.trans hs.pooled
  obtain ⟨link, hmem, hnext⟩ := Pool.exists_next hs.linked
  obtain ⟨l, hl, hheld⟩ := hs.free link hmem
  have hreceive := Server.receive_of_plain hl hheld hs.plain c
  simp only [Store.send, hs.listening, hnext, hreceive]
  exact ⟨trivial, _, _, ⟨hs.connected, rfl, rfl, hs.linked, hs.free, hs.plain⟩, rfl⟩

theorem Serves.exists_pool (h : s.Serves keys) :
    s.status = .connected ∧ ∃ pool, s.pool = some pool := by
  obtain ⟨server, pool, hs, -⟩ := h
  exact ⟨hs.connected, pool, hs.pooled⟩

/-! ## Calls -/

/-- A call that sends a command is answered by what the keys make of the command. -/
theorem Serves.perform_of_sent (h : s.Serves keys) {c : Call} {q : Query}
    (hd : s.dispatch c = .sent q) :
    (s.perform c).1 = q.settle (some (keys.execute q.command).1) ∧
      (s.perform c).2.Serves (keys.execute q.command).2 := by
  obtain ⟨pool, hpool, hperform⟩ := Store.perform_of_sent hd
  obtain ⟨hreply, hserves⟩ := h.send hpool q.command
  rw [hperform, hreply]
  exact ⟨rfl, hserves⟩

theorem Serves.tryAcquire (h : s.Serves keys) (key : String) (ttl : Duration) :
    (s.perform (.tryAcquire key ttl)).1 = (keys.answer (.tryAcquire key ttl)).1 ∧
      (s.perform (.tryAcquire key ttl)).2.Serves (keys.answer (.tryAcquire key ttl)).2 := by
  obtain ⟨-, pool, hpool⟩ := h.exists_pool
  cases hkey : ensureKey key with
  | error e =>
      have hd : s.dispatch (.tryAcquire key ttl) = .settled (.error e) := by
        simp only [dispatch, hkey]
      rw [perform_of_settled hd]
      simpa only [Keyspace.answer, hkey, true_and] using h
  | ok _ =>
      cases httl : ensureTtl ttl with
      | error e =>
          have hd : s.dispatch (.tryAcquire key ttl) = .settled (.error e) := by
            simp only [dispatch, hkey, httl]
          rw [perform_of_settled hd]
          simpa only [Keyspace.answer, hkey, httl, true_and] using h
      | ok _ =>
          have hd : s.dispatch (.tryAcquire key ttl)
              = .sent ⟨.setNxPx, .setNxPx key (max ttl.wholeMillis 1),
                  judge .setNxPx s.opTimeout Reply.wasSet⟩ := by
            simp only [dispatch, hkey, httl, hpool, pxMillis_of_accepted httl]
          obtain ⟨hanswer, hserves⟩ := h.perform_of_sent hd
          simp only [Keyspace.answer, hkey, httl]
          cases hlive : keys.isLive key with
          | true =>
              simp only [Keyspace.execute, hlive, if_true] at hanswer hserves
              exact ⟨hanswer, hserves⟩
          | false =>
              simp only [Keyspace.execute, hlive, Bool.false_eq_true, if_false] at hanswer hserves
              exact ⟨hanswer, hserves⟩

theorem Serves.release (h : s.Serves keys) (key : String) :
    (s.perform (.release key)).1 = (keys.answer (.release key)).1 ∧
      (s.perform (.release key)).2.Serves (keys.answer (.release key)).2 := by
  obtain ⟨-, pool, hpool⟩ := h.exists_pool
  cases hkey : ensureKey key with
  | error e =>
      have hd : s.dispatch (.release key) = .settled (.error e) := by
        simp only [dispatch, hkey]
      rw [perform_of_settled hd]
      simpa only [Keyspace.answer, hkey, true_and] using h
  | ok _ =>
      have hd : s.dispatch (.release key)
          = .sent ⟨.del, .del key, judge .del s.opTimeout Reply.anyKey⟩ := by
        simp only [dispatch, hkey, hpool]
      obtain ⟨hanswer, hserves⟩ := h.perform_of_sent hd
      simp only [Keyspace.answer, hkey]
      refine ⟨?_, hserves⟩
      simpa only [Keyspace.execute, judge_of_ok (Keyspace.anyKey_countReply _)] using hanswer

theorem Serves.exists (h : s.Serves keys) (key : String) :
    (s.perform (.exists key)).1 = (keys.answer (.exists key)).1 ∧
      (s.perform (.exists key)).2.Serves (keys.answer (.exists key)).2 := by
  obtain ⟨-, pool, hpool⟩ := h.exists_pool
  by_cases hnil : key = ""
  · subst hnil
    exact ⟨rfl, h⟩
  · have hne : key.isEmpty = false := by simpa using hnil
    have hd : s.dispatch (.exists key)
        = .sent ⟨.exists, .exists key,
            fun r => assumeAbsent (judge .exists s.opTimeout Reply.anyKey r)⟩ := by
      simp only [dispatch, ensureKey_eq_ok_iff.mpr hnil, hpool]
    obtain ⟨hanswer, hserves⟩ := h.perform_of_sent hd
    refine ⟨?_, hserves⟩
    rw [hanswer]
    simp only [Keyspace.execute, judge_of_ok (Keyspace.anyKey_countReply _), Keyspace.answer, hne,
      Bool.not_false, Bool.true_and]
    rfl

theorem Serves.check (h : s.Serves keys) (probe : Probe) :
    (s.perform (.check probe)).1 = .ok true ∧ (s.perform (.check probe)).2.Serves keys := by
  obtain ⟨hconn, pool, hpool⟩ := h.exists_pool
  have hd : s.dispatch (.check probe)
      = .sent ⟨.ping, .ping, judge .ping s.opTimeout Reply.isAlive⟩ := by
    simp only [dispatch, hconn, hpool]
  exact h.perform_of_sent hd

/-- While its server serves it, a store answers every call by the keys alone. -/
theorem Serves.perform (h : s.Serves keys) (c : Call) :
    (s.perform c).1 = (keys.answer c).1 ∧ (s.perform c).2.Serves (keys.answer c).2 := by
  cases c with
  | tryAcquire key ttl => exact h.tryAcquire key ttl
  | release key => exact h.release key
  | «exists» key => exact h.exists key
  | check probe => exact h.check probe

/-! ## Time -/

/-- So many milliseconds pass for the server. -/
def elapse (ms : Nat) (s : Store) : Store :=
  match s.network.server with
  | some server => s.withServer (server.obey { advance := ms })
  | none => s

theorem Serves.elapse (h : s.Serves keys) (ms : Nat) : (s.elapse ms).Serves (keys.advance ms) := by
  obtain ⟨server, pool, hs, rfl⟩ := h
  simp only [Store.elapse, hs.listening]
  exact ⟨_, pool, ⟨hs.connected, rfl, hs.pooled, hs.linked, hs.free, hs.plain⟩, rfl⟩

end Store

/-! ## Connecting -/

/-- The commands of a handshake leave the keys, the links and the treatments as they are. -/
theorem Server.greet_frame (server : Server) (c : Command) :
    (server.greet c).2.keys = server.keys ∧ (server.greet c).2.links = server.links ∧
      (server.greet c).2.treatments = server.treatments := by
  cases c with
  | auth user password =>
      simp only [greet, carryOut]
      split <;> exact ⟨rfl, rfl, rfl⟩
  | select database =>
      simp only [greet, carryOut]
      split <;> exact ⟨rfl, rfl, rfl⟩
  | _ => exact ⟨rfl, rfl, rfl⟩

/-- A server that treats no command specially answers a handshake as any command. -/
theorem Server.greet_of_plain (server : Server) (hplain : server.treatments = []) (c : Command) :
    (server.greet c).1 = some (server.keys.execute c).1 := by
  cases c <;> simp [greet, carryOut, treatment?, hplain]

namespace Store

theorem greetAll_frame (limit : Duration) (server : Server) (cs : List Command) :
    (greetAll limit server cs).2.keys = server.keys ∧
      (greetAll limit server cs).2.links = server.links ∧
      (greetAll limit server cs).2.treatments = server.treatments := by
  induction cs generalizing server with
  | nil => exact ⟨rfl, rfl, rfl⟩
  | cons c cs ih =>
      obtain ⟨hkeys, hlinks, htreat⟩ := server.greet_frame c
      obtain ⟨hkeys', hlinks', htreat'⟩ := ih (server.greet c).2
      simp only [greetAll]
      split
      · exact ⟨hkeys'.trans hkeys, hlinks'.trans hlinks, htreat'.trans htreat⟩
      · exact ⟨hkeys, hlinks, htreat⟩

/-- The links that are opened are new, and the server holds nothing back on them. -/
theorem openLinks_frame {limit : Duration} {a : Address} {server last : Server} {n : Nat}
    {links : List Nat} (h : openLinks limit a server n = (.ok links, last)) :
    last.keys = server.keys ∧ last.treatments = server.treatments ∧
      last.links = server.links ++ List.replicate n ({} : Link) ∧
      ∀ link ∈ links, server.links.length ≤ link ∧ link < server.links.length + n := by
  induction n generalizing server links with
  | zero =>
      simp only [openLinks, Prod.mk.injEq, Except.ok.injEq] at h
      obtain ⟨rfl, rfl⟩ := h
      simp
  | succ n ih =>
      obtain ⟨hkeys, hlinks, htreat⟩ := greetAll_frame limit server.accept.2 (handshake a)
      rcases hgreet : greetAll limit server.accept.2 (handshake a) with ⟨_ | _, greeted⟩
      · simp [openLinks, hgreet] at h
      · rw [hgreet] at hkeys hlinks htreat
        rcases hrest : openLinks limit a greeted n with ⟨_ | rest, final⟩
        · simp [openLinks, hgreet, hrest] at h
        · simp only [openLinks, hgreet, hrest, Prod.mk.injEq, Except.ok.injEq] at h
          obtain ⟨rfl, rfl⟩ := h
          obtain ⟨hkeys', htreat', hlinks', hmem⟩ := ih hrest
          simp only [Server.accept] at hkeys hlinks htreat
          have hlen : greeted.links.length = server.links.length + 1 := by simp [hlinks]
          refine ⟨hkeys'.trans hkeys, htreat'.trans htreat, ?_, ?_⟩
          · rw [hlinks', hlinks, List.append_assoc]
            rfl
          · intro link hlink
            rcases List.mem_cons.mp hlink with rfl | hlink
            · simp only [Server.accept]
              omega
            · have hbounds := hmem link hlink
              omega

/-- The links of a pool that is opened are free. -/
theorem openPool_free {s opened : Store} {server : Server} {pool : Pool}
    (hserver : s.network.server = some server) (h : s.openPool = (.ok pool, opened)) :
    ∃ last, opened = s.withServer last ∧ last.keys = server.keys ∧
      last.treatments = server.treatments ∧
      ∀ link ∈ pool.links, ∃ l, last.links[link]? = some l ∧ l.held = none := by
  rcases s.openPool_cases with ⟨e, -, hopen⟩ | ⟨server', links, last, hlistens, hlinks, hopen⟩
  · cases hopen.symm.trans h
  · cases hlistens.server.symm.trans hserver
    rcases links with e | links
    · cases hopen.symm.trans h
    · cases hopen.symm.trans h
      obtain ⟨hkeys, htreat, hnew, hmem⟩ := openLinks_frame hlinks
      refine ⟨last, rfl, hkeys, htreat, fun link hlink => ⟨{}, ?_, rfl⟩⟩
      obtain ⟨hge, hlt⟩ := hmem link hlink
      rw [hnew, List.getElem?_append_right hge, List.getElem?_replicate, if_pos (by omega)]

/-- A pool that a server has given a sign of life over is a session with it, if the server treats no
command specially. -/
theorem serves_of_verify {s : Store} {server : Server} (hserver : s.network.server = some server)
    (hplain : server.treatments = []) (hok : s.verify.1 = .ok ()) :
    { s.verify.2 with status := .connected }.Serves server.keys := by
  rcases hopen : s.openPool with ⟨e | pool, opened⟩
  · simp [verify, hopen] at hok
  · obtain ⟨last, rfl, hkeys, htreat, hfree⟩ := openPool_free hserver hopen
    rw [verify_of_openPool hopen] at hok ⊢
    by_cases hlinked : pool.links = []
    · -- Without a link there is no sign of life.
      simp [Store.send, hlinked, withServer, judge_none, Answer.toUnit, Except.map] at hok
    · obtain ⟨link, hmem, hnext⟩ := Pool.exists_next hlinked
      obtain ⟨l, hl, hheld⟩ := hfree link hmem
      have hreceive := Server.receive_of_plain hl hheld (htreat.trans hplain) .ping
      simp only [Store.send, withServer, hnext, hreceive]
      exact ⟨_, _, ⟨rfl, rfl, rfl, hlinked, hfree, htreat.trans hplain⟩, hkeys⟩

/-- A server listens where the store looks for one, and treats no command specially. -/
def InReach (s : Store) : Prop := ∃ server, s.Listens server ∧ server.treatments = []

/-- A command of a handshake is answered by a text, whatever the keys are. -/
theorem execute_of_mem_handshake {a : Address} {c : Command} (h : c ∈ handshake a)
    (keys : Keyspace) : ∃ text, (keys.execute c).1 = .simple text := by
  rcases List.mem_append.mp h with hsign | hturn
  · split at hsign
    · cases List.mem_singleton.mp hsign
      exact ⟨_, rfl⟩
    · cases List.mem_singleton.mp hsign
      exact ⟨_, rfl⟩
  · split at hturn
    · cases List.mem_singleton.mp hturn
      exact ⟨_, rfl⟩
    · cases hturn

theorem greetAll_of_plain (limit : Duration) {server : Server} (hplain : server.treatments = [])
    {cs : List Command}
    (hcs : ∀ c ∈ cs, ∀ keys : Keyspace, ∃ text, (keys.execute c).1 = .simple text) :
    ∃ last, greetAll limit server cs = (.ok (), last) := by
  induction cs generalizing server with
  | nil => exact ⟨server, rfl⟩
  | cons c cs ih =>
      obtain ⟨text, htext⟩ := hcs c List.mem_cons_self server.keys
      have hstill : (server.greet c).2.treatments = [] := (server.greet_frame c).2.2.trans hplain
      obtain ⟨last, hrest⟩ := ih hstill fun c' hc' => hcs c' (List.mem_cons_of_mem c hc')
      refine ⟨last, ?_⟩
      have halive : Reply.isAlive (.simple text) = .ok true := rfl
      simp only [greetAll, server.greet_of_plain hplain, htext, judge_of_ok halive]
      exact hrest

theorem openLinks_of_plain (limit : Duration) (a : Address) {server : Server}
    (hplain : server.treatments = []) (n : Nat) :
    ∃ links last, openLinks limit a server n = (.ok links, last) ∧ links.length = n := by
  induction n generalizing server with
  | zero => exact ⟨[], server, rfl, rfl⟩
  | succ n ih =>
      have haccepted : server.accept.2.treatments = [] := hplain
      obtain ⟨greeted, hgreet⟩ := greetAll_of_plain limit haccepted
        fun c (hc : c ∈ handshake a) => execute_of_mem_handshake hc
      have hframe := greetAll_frame limit server.accept.2 (handshake a)
      rw [hgreet] at hframe
      obtain ⟨rest, last, hrest, hlength⟩ := ih (hframe.2.2.trans hplain)
      refine ⟨server.accept.1 :: rest, last, ?_, by rw [List.length_cons, hlength]⟩
      simp only [openLinks, hgreet, hrest]

/-- A store verifies a session with a server that treats no command specially. -/
theorem verified_of_inReach {s : Store} (h : s.InReach) (hsize : 0 < s.poolSize) :
    s.Verified := by
  obtain ⟨server, hlistens, hplain⟩ := h
  obtain ⟨links, last, hlinks, hlength⟩ :=
    openLinks_of_plain s.opTimeout s.address hplain s.poolSize
  have hopen := hlistens.openPool hlinks
  have hlinked : ({ links } : Pool).links ≠ [] := List.length_pos_iff.mp (by simpa [hlength])
  obtain ⟨link, hmem, hnext⟩ := Pool.exists_next hlinked
  obtain ⟨last', hlast, -, htreat, hfree⟩ := openPool_free hlistens.server hopen
  obtain ⟨l, hl, hheld⟩ := hfree link hmem
  have hreceive := Server.receive_of_plain hl hheld (htreat.trans hplain) .ping
  refine ⟨_, _, hopen, .simple "PONG", ?_, .simple "PONG"⟩
  rw [hlast]
  simp only [Store.send, withServer, hnext, hreceive, Keyspace.execute]

/-- A store that connects to a server that treats no command specially has a session with it. -/
theorem serves_of_connect {s last : Store} {server : Server}
    (hserver : s.network.server = some server) (hplain : server.treatments = [])
    (h : s.connect = (.ok (), last)) : last.Serves server.keys := by
  have hstatus : s.status ≠ .connected := by
    intro hconn
    cases (connect_of_connected hconn).symm.trans h
  rcases hverify : s.verify.1 with e | _
  · cases (connect_of_unverified hstatus hverify).symm.trans h
  · cases (connect_of_verified hstatus hverify).symm.trans h
    exact serves_of_verify hserver hplain hverify

end Store

end KeyLease.Redis
