import KeyLease.Proofs.Redis.Reactions

set_option autoImplicit false

/-!
# Sessions opened and closed

What the operations on the session of a Redis store can do, case by case. Nothing that a store does
changes its settings (`Store.SameSettings`). A store that is not connected opens its pool and asks
for a sign of life; `verify_cases` says how that can come out. `connect_cases` says that connecting
comes out as this verification does, whatever becomes of the farewell after a failed one, and
`disconnect_cases` that disconnecting lets go of the pool whatever becomes of the farewell.
-/

namespace KeyLease.Redis.Store

/-! ## What stays -/

/-- The same settings: what a store is built with. -/
structure SameSettings (s s' : Store) : Prop where
  address : s'.address = s.address
  endpoint : s'.endpoint = s.endpoint
  opTimeout : s'.opTimeout = s.opTimeout
  poolSize : s'.poolSize = s.poolSize

theorem SameSettings.refl (s : Store) : SameSettings s s := ⟨rfl, rfl, rfl, rfl⟩

theorem SameSettings.trans {s u v : Store} (h : SameSettings s u) (h' : SameSettings u v) :
    SameSettings s v :=
  ⟨h'.address.trans h.address, h'.endpoint.trans h.endpoint, h'.opTimeout.trans h.opTimeout,
    h'.poolSize.trans h.poolSize⟩

/-! ## Exchanges -/

theorem send_frame (s : Store) (pool : Pool) (c : Command) :
    SameSettings s (s.send pool c).2 ∧ (s.send pool c).2.status = s.status := by
  unfold send
  split
  · exact ⟨⟨rfl, rfl, rfl, rfl⟩, rfl⟩
  · exact ⟨SameSettings.refl s, rfl⟩

/-- An exchange is judged by the limit that the store has had before. -/
theorem exchange_eq (s : Store) (pool : Pool) (verb : Verb) (c : Command)
    (take : Reply → Except Trouble Bool) :
    s.exchange pool verb c take
      = (judge verb s.opTimeout take (s.send pool c).1, (s.send pool c).2) := by
  simp only [exchange, (s.send_frame pool c).1.opTimeout]

/-- A store that has had a reply has a pool. -/
theorem pool_send_of_reply {s : Store} {pool : Pool} {c : Command} {reply : Reply}
    (h : (s.send pool c).1 = some reply) : (s.send pool c).2.pool.isSome := by
  unfold send at h ⊢
  split
  · rfl
  · simp_all

/-- A store that sends keeps the pool that it has. -/
theorem pool_send_isSome {s : Store} {pool : Pool} (hpool : s.pool = some pool) (c : Command) :
    (s.send pool c).2.pool.isSome := by
  unfold send
  split
  · rfl
  · simp [hpool]

/-! ## Opening the pool -/

theorem greetAll_error {limit : Duration} {server last : Server} {cs : List Command} {e : Failure}
    (h : greetAll limit server cs = (.error e, last)) : OutageOf .connect e := by
  induction cs generalizing server with
  | nil => cases h
  | cons c cs ih =>
      simp only [greetAll] at h
      split at h
      · exact ih h
      · rename_i hjudge
        cases h
        exact outageOf_bounded hjudge

theorem openLinks_error {limit : Duration} {a : Address} {server last : Server} {n : Nat}
    {e : Failure} (h : openLinks limit a server n = (.error e, last)) : OutageOf .connect e := by
  induction n generalizing server last with
  | zero => cases h
  | succ n ih =>
      simp only [openLinks] at h
      split at h
      · rename_i hgreet
        cases h
        exact greetAll_error hgreet
      · split at h
        · rename_i hrest
          cases h
          exact ih hrest
        · cases h

/-- A server listens where the store looks for one, and nothing befalls the opening of links. -/
structure Listens (s : Store) (server : Server) : Prop where
  opening : s.network.opening = none
  reachable : s.network.reachable = true
  port : s.address.port = s.network.port
  server : s.network.server = some server

/-- The pool is not opened and nothing has changed, or a server that listens is asked for the
links. -/
theorem openPool_cases (s : Store) :
    (∃ e, OutageOf .connect e ∧ s.openPool = (.error e, s)) ∨
      ∃ server links last, s.Listens server ∧
        openLinks s.opTimeout s.address server s.poolSize = (links, last) ∧
        s.openPool = (links.map fun links => { links }, s.withServer last) := by
  unfold openPool
  split
  · rename_i mishap _
    cases mishap with
    | silence => exact Or.inl ⟨_, Or.inl ⟨_, rfl⟩, rfl⟩
    | trouble t => exact Or.inl ⟨_, Or.inr ⟨t, rfl⟩, rfl⟩
  rename_i hopening
  split
  · exact Or.inl ⟨_, Or.inr ⟨_, rfl⟩, rfl⟩
  rename_i hreachable
  split
  · exact Or.inl ⟨_, Or.inr ⟨_, rfl⟩, rfl⟩
  rename_i hport
  split
  · exact Or.inl ⟨_, Or.inr ⟨_, rfl⟩, rfl⟩
  · rename_i server hserver
    have hlistens : s.Listens server :=
      ⟨hopening, by simpa using hreachable, by simpa using hport, hserver⟩
    exact Or.inr ⟨server, _, _, hlistens, rfl, rfl⟩

/-- A server that listens is asked for the links. -/
theorem Listens.openPool {s : Store} {server last : Server} {links : Except Failure (List Nat)}
    (h : s.Listens server)
    (hlinks : openLinks s.opTimeout s.address server s.poolSize = (links, last)) :
    s.openPool = (links.map fun links => { links }, s.withServer last) := by
  simp [Store.openPool, h.opening, h.reachable, h.port, h.server, hlinks]

/-- A pool that is not opened is an outage of the connection. -/
theorem outageOf_openPool {s opened : Store} {e : Failure}
    (h : s.openPool = (.error e, opened)) : OutageOf .connect e := by
  rcases s.openPool_cases with ⟨e', he', hopen⟩ | ⟨server, links, last, -, hlinks, hopen⟩
  · cases hopen.symm.trans h
    exact he'
  · rcases links with e' | links
    · cases hopen.symm.trans h
      exact openLinks_error hlinks
    · cases hopen.symm.trans h

/-- Opening the links changes the network of a store at most. -/
theorem openPool_frame (s : Store) :
    SameSettings s s.openPool.2 ∧ s.openPool.2.status = s.status := by
  rcases s.openPool_cases with ⟨e, -, hopen⟩ | ⟨server, links, last, -, -, hopen⟩
  · rw [hopen]
    exact ⟨SameSettings.refl s, rfl⟩
  · rw [hopen]
    exact ⟨⟨rfl, rfl, rfl, rfl⟩, rfl⟩

/-! ## Verification -/

/-- The links of the pool are opened, each with its handshake, and a text or a number comes back for
the sign of life, everything within the limit. -/
def Verified (s : Store) : Prop :=
  ∃ pool opened, s.openPool = (.ok pool, opened) ∧ Came Reply.IsValue (opened.send pool .ping).1

/-- What a verification fails with: what opening the links failed with, or what the client made of
what came back for the sign of life. -/
def Unverified (s : Store) (e : Failure) : Prop :=
  (OutageOf .connect e ∧ s.openPool.1 = .error e) ∨
    ∃ pool opened, s.openPool = (.ok pool, opened) ∧ OutageOf .ping e ∧
      judge .ping s.opTimeout Reply.isAlive (opened.send pool .ping).1 = .error e

theorem Unverified.unavailable {s : Store} {e : Failure} (h : s.Unverified e) :
    ∃ outage, e = .backendUnavailable outage := by
  rcases h with ⟨houtage, -⟩ | ⟨-, -, -, houtage, -⟩
  · exact houtage.unavailable
  · exact houtage.unavailable

theorem verify_of_openPool {s opened : Store} {pool : Pool}
    (hopen : s.openPool = (.ok pool, opened)) :
    s.verify = ((judge .ping s.opTimeout Reply.isAlive (opened.send pool .ping).1).toUnit,
      (opened.send pool .ping).2) := by
  have hlimit : opened.opTimeout = s.opTimeout := by
    simpa only [hopen] using s.openPool_frame.1.opTimeout
  simp only [verify, hopen, exchange_eq, hlimit]

/-- How a verification comes out: it succeeds and has left a pool, or it fails. -/
theorem verify_cases (s : Store) :
    (s.Verified ∧ s.verify.1 = .ok () ∧ s.verify.2.pool.isSome) ∨
      ¬ s.Verified ∧ ∃ e, s.Unverified e ∧ s.verify.1 = .error e := by
  rcases hopen : s.openPool with ⟨e | pool, opened⟩
  · refine Or.inr ⟨?_, e, Or.inl ⟨outageOf_openPool hopen, by rw [hopen]⟩, by rw [verify, hopen]⟩
    rintro ⟨pool, opened', hok, -⟩
    cases hopen.symm.trans hok
  · have hverified : s.Verified ↔ Came Reply.IsValue (opened.send pool .ping).1 := by
      constructor
      · rintro ⟨pool', opened', hok, hcame⟩
        cases hopen.symm.trans hok
        exact hcame
      · exact fun hcame => ⟨pool, opened, hopen, hcame⟩
    rw [hverified, verify_of_openPool hopen]
    -- No reply is read as a no to a sign of life: the second case does not arise.
    rcases reads_isAlive.judge_cases .ping s.opTimeout (opened.send pool .ping).1 with
      ⟨hyes, -, hjudge⟩ | ⟨⟨_, _, ⟨⟩⟩, -⟩ | ⟨hyes, -, e, houtage, hjudge⟩
    · obtain ⟨reply, hreply, -⟩ := id hyes
      refine Or.inl ⟨hyes, ?_, pool_send_of_reply hreply⟩
      rw [hjudge]
      rfl
    · refine Or.inr ⟨hyes, e, Or.inr ⟨pool, opened, hopen, houtage, hjudge⟩, ?_⟩
      rw [hjudge]
      rfl

theorem verify_frame (s : Store) : SameSettings s s.verify.2 ∧ s.verify.2.status = s.status := by
  obtain ⟨hsame, hstatus⟩ := s.openPool_frame
  rcases hopen : s.openPool with ⟨e | pool, opened⟩
  · rw [hopen] at hsame hstatus
    simp only [verify, hopen]
    exact ⟨hsame, hstatus⟩
  · rw [hopen] at hsame hstatus
    obtain ⟨hsame', hstatus'⟩ := opened.send_frame pool .ping
    rw [verify_of_openPool hopen]
    exact ⟨hsame.trans hsame', hstatus'.trans hstatus⟩

/-! ## Connecting -/

/-- A session that is verified is open. -/
theorem connect_of_verified {s : Store} (hstatus : s.status ≠ .connected)
    (hok : s.verify.1 = .ok ()) :
    s.connect = (.ok (), { s.verify.2 with status := .connected }) := by
  have hopen : s.openSession = (.ok (), s.verify.2) := by
    rw [openSession, show s.verify = (.ok (), s.verify.2) from Prod.ext hok rfl]
  have hkept := s.verify_frame.2
  unfold connect
  cases hst : s.status with
  | connected => exact absurd hst hstatus
  | uninitialized => simp only [hopen, hkept, hst, Status.connect]
  | disconnected => simp only [hopen, hkept, hst, Status.connect]

/-- A session that is not verified fails with that, whatever becomes of the farewell to it; only the
network may have changed. -/
theorem connect_of_unverified {s : Store} {e : Failure} (hstatus : s.status ≠ .connected)
    (hfail : s.verify.1 = .error e) :
    s.connect = (.error e, { s.verify.2 with pool := s.pool }) := by
  have hopen : s.openSession = (.error e, { s.verify.2 with pool := s.pool }) := by
    rw [openSession, show s.verify = (.error e, s.verify.2) from Prod.ext hfail rfl]
    rfl
  have hkept := s.verify_frame.2
  unfold connect
  cases hst : s.status with
  | connected => exact absurd hst hstatus
  | uninitialized => simp only [hopen, hkept, hst, Status.connect]
  | disconnected => simp only [hopen, hkept, hst, Status.connect]

theorem connect_of_connected {s : Store} (h : s.status = .connected) :
    s.connect = (.error .alreadyConnected, s) := by
  simp only [connect, h]

/-- Connecting comes out as the verification of the session does, and leaves a store that fails as
it was but for the network. -/
theorem connect_cases (s : Store) :
    (s.status = .connected ∧ s.connect = (.error .alreadyConnected, s)) ∨
    (s.status ≠ .connected ∧ s.Verified ∧ s.connect.1 = .ok () ∧
      s.connect.2.status = .connected ∧ s.connect.2.pool.isSome) ∨
    (s.status ≠ .connected ∧ ¬ s.Verified ∧ ∃ e, s.Unverified e ∧ s.connect.1 = .error e ∧
      s.connect.2.status = s.status ∧ s.connect.2.pool = s.pool) := by
  by_cases hstatus : s.status = .connected
  · exact Or.inl ⟨hstatus, connect_of_connected hstatus⟩
  · rcases s.verify_cases with ⟨hver, hok, hpool⟩ | ⟨hver, e, hunver, hfail⟩
    · rw [connect_of_verified hstatus hok]
      exact Or.inr (Or.inl ⟨hstatus, hver, rfl, rfl, hpool⟩)
    · rw [connect_of_unverified hstatus hfail]
      exact Or.inr (Or.inr ⟨hstatus, hver, e, hunver, rfl, s.verify_frame.2, rfl⟩)

theorem connect_frame (s : Store) : SameSettings s s.connect.2 := by
  obtain ⟨hsame, -⟩ := s.verify_frame
  by_cases hstatus : s.status = .connected
  · rw [connect_of_connected hstatus]
    exact SameSettings.refl s
  · rcases hverify : s.verify.1 with e | _
    · rw [connect_of_unverified hstatus hverify]
      exact ⟨hsame.address, hsame.endpoint, hsame.opTimeout, hsame.poolSize⟩
    · rw [connect_of_verified hstatus hverify]
      exact ⟨hsame.address, hsame.endpoint, hsame.opTimeout, hsame.poolSize⟩

/-! ## Disconnecting -/

/-- What becomes of the farewell to the links of a store. -/
def farewell (s : Store) : Except Failure Unit := s.leave.1

theorem outageOf_farewell {s : Store} {e : Failure} (h : s.farewell = .error e) :
    OutageOf .quit e := outageOf_bounded h

/-- Disconnecting leaves the store without a pool, whatever becomes of the farewell, and says what
has become of it. -/
theorem disconnect_cases (s : Store) :
    (s.status ≠ .connected ∧ s.disconnect = (.error .notConnected, s)) ∨
      s.status = .connected ∧ (s.pool.isSome → s.disconnect.1 = s.farewell) ∧
        s.disconnect.2 = { s with status := .disconnected, pool := none } := by
  unfold disconnect
  cases hst : s.status with
  | uninitialized => exact Or.inl ⟨nofun, rfl⟩
  | disconnected => exact Or.inl ⟨nofun, rfl⟩
  | connected =>
      refine Or.inr ⟨rfl, ?_⟩
      -- A connected store without a pool would have nobody to bid farewell to.
      cases hpool : s.pool with
      | none => simp [closeSession, hpool, hst, Status.disconnect]
      | some pool => simp [closeSession, hpool, leave, hst, Status.disconnect, farewell]

end KeyLease.Redis.Store
