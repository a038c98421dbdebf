import KeyLease.Proofs.Refusals

set_option autoImplicit false

/-!
# Whether a store is connected is told by its status and by its pool

A Redis store keeps two records of whether it is connected: its status, and the pool that it may
have. Its operations on keys go by the pool alone, its health checks by both. A run is any sequence
of what is done to a store and of changes to the network around it, of whatever kind
(`SessionEvent`). `Coherent.meet` says that every event leaves the two records in agreement, and
`session_invariant` what follows for connecting and disconnecting after any run.
-/

namespace KeyLease.Redis

/-! ## Runs -/

/-- What is done to a Redis store, or happens around it. -/
inductive SessionEvent
  | connect
  | disconnect
  | call (c : Call)
  /-- Servers come and go, treat commands anew, and links are befallen by mishaps. -/
  | world (network : Network)

namespace Store

/-- The store after an event. -/
def meet (s : Store) : SessionEvent → Store
  | .connect => s.connect.2
  | .disconnect => s.disconnect.2
  | .call c => (s.perform c).2
  | .world network => { s with network }

/-- The store after a run. -/
def after (s : Store) (events : List SessionEvent) : Store := events.foldl meet s

/-- A store that has just been built. -/
structure Fresh (s : Store) : Prop where
  status : s.status = .uninitialized
  pool : s.pool = none
  poolSize : 0 < s.poolSize

/-- A store after a run from its making. -/
def Reached (s : Store) : Prop := ∃ built events, Fresh built ∧ built.after events = s

theorem fresh_ofConfig {c : Config} {network : Network} {s : Store}
    (h : ofConfig c network = .ok s) : s.Fresh := by
  unfold ofConfig at h
  split at h
  · cases h
  · cases h
  · cases h
  · split at h
    · cases h
    · cases h
      exact ⟨rfl, rfl, (by decide : 0 < defaultPoolSize)⟩

theorem Fresh.withPoolSize {s : Store} (h : s.Fresh) (n : Nat) : (s.withPoolSize n).Fresh :=
  ⟨h.status, h.pool, Nat.le_max_right n 1⟩

theorem after_append (s : Store) (events more : List SessionEvent) :
    s.after (events ++ more) = (s.after events).after more := List.foldl_append

/-- What holds of a store that has just been built and is kept by every event holds after every
run. -/
theorem Reached.induction {P : Store → Prop} (hfresh : ∀ s : Store, s.Fresh → P s)
    (hmeet : ∀ (s : Store) e, P s → P (s.meet e)) {s : Store} (h : s.Reached) : P s := by
  obtain ⟨built, events, hbuilt, rfl⟩ := h
  have hstart := hfresh built hbuilt
  -- Past its first event a run no longer starts from a store just built, but from any with `P`.
  clear hbuilt
  induction events generalizing built with
  | nil => exact hstart
  | cons e events ih => exact ih (built.meet e) (hmeet built e hstart)

theorem Reached.after {s : Store} (h : s.Reached) (events : List SessionEvent) :
    (s.after events).Reached := by
  obtain ⟨built, past, hbuilt, rfl⟩ := h
  exact ⟨built, past ++ events, hbuilt, after_append built past events⟩

/-- The runs of a store begin with what a configuration describes, with any number of links. -/
theorem reached_ofConfig {c : Config} {network : Network} {s : Store}
    (h : ofConfig c network = .ok s) (n : Nat) : s.Reached ∧ (s.withPoolSize n).Reached :=
  ⟨⟨s, [], fresh_ofConfig h, rfl⟩, ⟨_, [], (fresh_ofConfig h).withPoolSize n, rfl⟩⟩

theorem Reached.connect {s : Store} (h : s.Reached) : s.connect.2.Reached := h.after [.connect]

/-! ## What one event does -/

/-- A call changes neither the settings nor the status, and neither brings nor takes a pool. -/
theorem perform_frame (s : Store) (c : Call) :
    SameSettings s (s.perform c).2 ∧ (s.perform c).2.status = s.status ∧
      (s.perform c).2.pool.isSome = s.pool.isSome := by
  cases hd : s.dispatch c with
  | settled a =>
      rw [perform_of_settled hd]
      exact ⟨SameSettings.refl s, rfl, rfl⟩
  | sent q =>
      obtain ⟨pool, hpool, hperform⟩ := perform_of_sent hd
      obtain ⟨hsame, hstatus⟩ := s.send_frame pool q.command
      rw [hperform]
      exact ⟨hsame, hstatus, by rw [pool_send_isSome hpool, hpool]; rfl⟩

theorem sameSettings_meet (s : Store) (e : SessionEvent) : SameSettings s (s.meet e) := by
  cases e with
  | connect => exact s.connect_frame
  | disconnect =>
      rcases s.disconnect_cases with ⟨-, hdisc⟩ | ⟨-, -, hdisc⟩
      · rw [meet, hdisc]
        exact SameSettings.refl s
      · rw [meet, hdisc]
        exact ⟨rfl, rfl, rfl, rfl⟩
  | call c => exact (s.perform_frame c).1
  | world network => exact ⟨rfl, rfl, rfl, rfl⟩

/-- Every event leaves the status and the pool in agreement. -/
theorem Coherent.meet {s : Store} (h : s.Coherent) (e : SessionEvent) : (s.meet e).Coherent := by
  cases e with
  | connect =>
      simp only [Coherent, Store.meet]
      rcases s.connect_cases with ⟨-, hconn⟩ | ⟨-, -, -, hstatus, hpool⟩ |
        ⟨-, -, e, -, -, hstatus, hpool⟩
      · rw [hconn]
        exact h
      · simp only [hstatus, hpool]
      · rw [hstatus, hpool]
        exact h
  | disconnect =>
      simp only [Coherent, Store.meet]
      rcases s.disconnect_cases with ⟨-, hdisc⟩ | ⟨-, -, hdisc⟩
      · rw [hdisc]
        exact h
      · rw [hdisc]
        simp
  | call c =>
      obtain ⟨-, hstatus, hpool⟩ := s.perform_frame c
      simp only [Coherent, Store.meet, hstatus, hpool]
      exact h
  | world network => exact h

theorem Reached.coherent {s : Store} (h : s.Reached) : s.Coherent := by
  refine h.induction (P := Coherent) (fun s hs => ?_) fun s e hs => hs.meet e
  simp [Coherent, hs.pool, hs.status]

theorem Reached.poolSize_pos {s : Store} (h : s.Reached) : 0 < s.poolSize := by
  refine h.induction (P := fun s => 0 < s.poolSize) (fun s hs => hs.poolSize) fun s e hs => ?_
  rw [(s.sameSettings_meet e).poolSize]
  exact hs

/-! ## While nothing connects -/

/-- No connect of the run succeeds. -/
def NoneConnects (s : Store) : List SessionEvent → Prop
  | [] => True
  | e :: rest => (e = .connect → s.connect.1 ≠ .ok ()) ∧ (s.meet e).NoneConnects rest

/-- Only a connect that succeeds connects a store. -/
theorem status_meet {s : Store} (hstatus : s.status ≠ .connected) {e : SessionEvent}
    (he : e = .connect → s.connect.1 ≠ .ok ()) : (s.meet e).status ≠ .connected := by
  cases e with
  | connect =>
      simp only [meet]
      rcases s.connect_cases with ⟨-, hconn⟩ | ⟨-, -, hok, -⟩ | ⟨-, -, e, -, -, hkept, -⟩
      · rwa [hconn]
      · exact absurd hok (he rfl)
      · rwa [hkept]
  | disconnect =>
      simp only [meet]
      rcases s.disconnect_cases with ⟨-, hdisc⟩ | ⟨-, -, hdisc⟩
      · rwa [hdisc]
      · simp [hdisc]
  | call c =>
      simp only [meet]
      rwa [(s.perform_frame c).2.1]
  | world network => exact hstatus

theorem NoneConnects.status_after {s : Store} {events : List SessionEvent}
    (h : s.NoneConnects events) (hstatus : s.status ≠ .connected) :
    (s.after events).status ≠ .connected := by
  induction events generalizing s with
  | nil => exact hstatus
  | cons e events ih => exact ih h.2 (status_meet hstatus h.1)

/-- Every operation on a key is refused at once: as out of connection, unless what it asks for is
refused already. -/
structure TurnsKeysAway (s : Store) : Prop where
  tryAcquire : ∀ key ttl, ∃ e, s.AtOnce (.tryAcquire key ttl) (.error e) ∧
    (key ≠ "" → ensureTtl ttl = .ok () → e = .notConnected)
  release : ∀ key, ∃ e, s.AtOnce (.release key) (.error e) ∧ (key ≠ "" → e = .notConnected)
  «exists» : ∀ key, s.AtOnce (.exists key) (.ok false)

theorem Coherent.turnsKeysAway {s : Store} (h : s.Coherent) (hstatus : s.status ≠ .connected) :
    s.TurnsKeysAway := by
  refine ⟨fun key ttl => ?_, fun key => ?_, fun key => ?_⟩
  · obtain ⟨⟨e, hrefusal, he⟩, -, -⟩ := Call.refusal?_of_unconnected hstatus key ttl
    exact ⟨e, h.atOnce_of_refusal hrefusal, he⟩
  · obtain ⟨-, ⟨e, hrefusal, he⟩, -⟩ := Call.refusal?_of_unconnected hstatus key .zero
    exact ⟨e, h.atOnce_of_refusal hrefusal, he⟩
  · exact h.atOnce_of_refusal (Call.refusal?_of_unconnected hstatus key .zero).2.2

/-! ## Connecting again -/

/-- A store with links to open connects if a server is in reach. -/
theorem connect_of_inReach {s : Store} (hstatus : s.status ≠ .connected) (hsize : 0 < s.poolSize)
    (h : s.InReach) : s.connect.1 = .ok () := by
  rcases s.connect_cases with ⟨hconn, -⟩ | ⟨-, -, hok, -⟩ | ⟨-, hver, -⟩
  · exact absurd hconn hstatus
  · exact hok
  · exact absurd (verified_of_inReach h hsize) hver

/-- A server that has just been started is in reach at its port. -/
theorem inReach_started {s : Store} {port : Nat} (h : s.address.port = port) :
    InReach { s with network := { port, server := some {} } } :=
  ⟨{}, ⟨rfl, rfl, h, rfl⟩, rfl⟩

/-! ## The sessions of every run -/

/-- **The two records agree.** After any run of a store, whatever its servers do, there is a pool
exactly if the store is connected.

Unless it is, it connects exactly if the session is verified. If it does not, it says why that was
not so and nothing about the farewell, it is as connected as it was, and up to the next connect that
succeeds it turns every operation on a key away and sends nothing for it. All that time it can
connect as soon as a server is in reach.

If it is connected, then disconnecting ends the session, whatever becomes of the farewell. -/
theorem session_invariant {s : Store} (hs : s.Reached) :
    (s.pool.isSome ↔ s.status = .connected) ∧
    (s.status ≠ .connected →
      (s.connect.1 = .ok () ↔ s.Verified) ∧
      ∀ e, s.connect.1 = .error e →
        s.Unverified e ∧ (∃ outage, e = .backendUnavailable outage) ∧
        s.connect.2.status = s.status ∧ s.connect.2.pool = none ∧
        ∀ events, s.connect.2.NoneConnects events →
          (s.connect.2.after events).TurnsKeysAway ∧
          (∃ network, InReach { s.connect.2.after events with network }) ∧
          ∀ network, InReach { s.connect.2.after events with network } →
            ({ s.connect.2.after events with network } : Store).connect.1 = .ok ()) ∧
    (s.status = .connected →
      s.disconnect.1 = s.farewell ∧ (∀ e, s.disconnect.1 = .error e → OutageOf .quit e) ∧
        s.disconnect.2.status = .disconnected ∧ s.disconnect.2.pool = none) := by
  refine ⟨hs.coherent, fun hstatus => ?_, fun hstatus => ?_⟩
  · rcases s.connect_cases with ⟨hconn, -⟩ | ⟨-, hver, hok, -⟩ |
      ⟨-, hver, e, hunver, hfail, hkept, hpool⟩
    · exact absurd hconn hstatus
    · refine ⟨by simp only [hok, hver], fun e he => ?_⟩
      cases hok.symm.trans he
    · refine ⟨by simp only [hfail, hver, reduceCtorEq], fun e' he => ?_⟩
      cases hfail.symm.trans he
      refine ⟨hunver, hunver.unavailable, hkept, hpool.trans (hs.coherent.pool_eq_none hstatus),
        fun events hnone => ?_⟩
      -- What follows is again a run of the store, so the two records still agree at its end.
      have hlast : (s.connect.2.after events).Reached := hs.connect.after events
      have hstill := hnone.status_after (hkept ▸ hstatus)
      exact ⟨hlast.coherent.turnsKeysAway hstill, ⟨_, inReach_started rfl⟩,
        fun network hreach => connect_of_inReach hstill hlast.poolSize_pos hreach⟩
  · obtain ⟨pool, hpool⟩ := hs.coherent.exists_pool hstatus
    rcases s.disconnect_cases with ⟨hnot, -⟩ | ⟨-, hresult, hdisc⟩
    · exact absurd hstatus hnot
    · have hfarewell : s.disconnect.1 = s.farewell := hresult (by rw [hpool]; rfl)
      rw [hdisc, hfarewell]
      exact ⟨rfl, fun e he => outageOf_farewell he, rfl, rfl⟩

/-- A run with a session, and then a server that has no sign of life to give and does not answer a
farewell: the store stays disconnected and says what was wrong with the sign of life. It connects
when the server is itself again, and a farewell that fails ends the session as well. -/
theorem session_invariant_reconnecting :
    let address : Address := ⟨"redis", none, some "secret", .named "localhost", 6379, some 2⟩
    let calm : Network := { port := 6379, server := some {} }
    let lifeless : Network :=
      { port := 6379, server := some { treatments := [("PING", .answer "_\r\n")] }
        farewell := some .silence }
    let built : Store :=
      { address, endpoint := "redis://localhost:6379/2", opTimeout := .ofMillis 100,
        network := calm }
    let s := built.after [.connect, .disconnect, .world lifeless]
    let failed := Failure.backendUnavailable (.failed .ping .nilString)
    let refused : List SessionEvent := [.call (.release "a"), .disconnect]
    let last := s.connect.2.after refused
    let s' := last.after
      [.world calm, .connect, .world { calm with farewell := some (.trouble .refused) }]
    s.Reached ∧ s.status ≠ .connected ∧ s.connect.1 = .error failed ∧ s.Unverified failed ∧
      s.connect.2.NoneConnects refused ∧ last.TurnsKeysAway ∧
      InReach { last with network := calm } ∧
      ({ last with network := calm } : Store).connect.1 = .ok () ∧
      s'.Reached ∧ s'.status = .connected ∧ s'.disconnect.2.status = .disconnected ∧
      s'.disconnect.2.pool = none ∧
      s'.disconnect.1 = .error (.backendUnavailable (.failed .quit .refused)) := by
  intro address calm lifeless built s failed refused last s'
  have hs : s.Reached := ⟨built, _, ⟨rfl, rfl, by decide⟩, rfl⟩
  have hs' : s'.Reached := (hs.connect.after refused).after _
  have hstatus : s.status ≠ .connected := by decide +kernel
  have hstatus' : s'.status = .connected := by decide +kernel
  have hfail : s.connect.1 = .error failed := by rfl
  have hnone : s.connect.2.NoneConnects refused := ⟨nofun, nofun, trivial⟩
  have hport : last.address.port = 6379 := by decide +kernel
  have hcalm : InReach { last with network := calm } := inReach_started hport
  obtain ⟨hunver, -, -, -, hlast⟩ := ((session_invariant hs).2.1 hstatus).2 failed hfail
  obtain ⟨haway, -, hagain⟩ := hlast refused hnone
  obtain ⟨hfarewell, -, hended, hpool⟩ := (session_invariant hs').2.2 hstatus'
  refine ⟨hs, hstatus, hfail, hunver, hnone, haway, hcalm, hagain calm hcalm, hs', hstatus', hended,
    hpool, ?_⟩
  rw [hfarewell]
  rfl

end Store

end KeyLease.Redis
