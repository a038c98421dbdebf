import KeyLease.Proofs.Clients.Session
import KeyLease.Tally

set_option autoImplicit false

/-!
# The counting store as a stand-in

What is built on stores is tried out on a counting store. That tells something about real stores if
nobody can tell the two apart, and `stands_in` says so: in the same run of requests a memory store
and a counting store tell the clients the same, as long as no time to live elapses that was acquired.
The count is that of the requests with a key, and a counting store that has been told to fail fails
every request that would have reached it.

Each store has a clock of its own, and the two need not move alike. While no lease comes to its end
on either clock, what is held now is held until the run is over, so the stores agree on it at every
pair of instants that the run can still come to (`Alongside`). That they also agree when a lease
does come to its end needs clocks that move together, and is not said here.
-/

namespace KeyLease

/-! ## Keys that count -/

/-- Whether a call has a key that is not empty. -/
def Call.hasKey (c : Call) : Bool := c.key?.any (· ≠ "")

namespace ClientRequest

/-- The key of a request as the client names it. -/
def rawKey? : ClientRequest → Option String
  | direct c => c.key?
  | lock l | unlock l | isLocked l => some l.rawKey
  | validate _ rawKey | isAdmitted _ rawKey => some rawKey

/-- Whether a request has a key that is not empty. -/
def hasKey (r : ClientRequest) : Bool := r.rawKey?.any (· ≠ "")

/-- A request has a key exactly if its call has one. -/
theorem hasKey_call (r : ClientRequest) : r.call.hasKey = r.hasKey := by
  cases r <;>
    simp [call, hasKey, rawKey?, Call.hasKey, Call.key?, Namespace.stored_eq_empty_iff]

end ClientRequest

/-! ## The counting store, call by call -/

namespace Tally

variable {s : Tally}

/-- Counting stores turn the empty key away, and do not count it. -/
theorem turnsAwayEmptyKey (s : Tally) : TurnsAwayEmptyKey s := ⟨fun _ => rfl, rfl, rfl⟩

/-- On a connected store a key that is not empty is counted, and is let through unless the store was
told to fail. -/
theorem enter_of_connected (hconn : s.status = .connected) {key : String} (hkey : key ≠ "") :
    s.enter key
      = (match s.failure with
          | some message => .error (.backendUnavailable (.stated message))
          | none => .ok (),
        { s with calls := s.calls + 1 }) := by
  have hst : s.status.ensureConnected = .ok () := Status.ensureConnected_eq_ok_iff.mpr hconn
  simp only [enter, ensureKey_eq_ok_iff.mpr hkey, hst]
  cases s.failure <;> rfl

/-- Whatever comes of it, entering does nothing but count a key that is not empty. -/
theorem enter_eq (hconn : s.status = .connected) (key : String) :
    s.enter key = ((s.enter key).1, { s with calls := s.calls + if key ≠ "" then 1 else 0 }) := by
  by_cases hkey : key = ""
  · subst hkey
    rfl
  · rw [enter_of_connected hconn hkey, if_pos hkey]

/-- A call ends no session, moves no clock, lifts no failure, and is counted if it has a key. -/
theorem perform_frame (hconn : s.status = .connected) (c : Call) :
    (s.perform c).2.status = .connected ∧ (s.perform c).2.now = s.now ∧
      (s.perform c).2.failure = s.failure ∧
      (s.perform c).2.calls = s.calls + if c.hasKey then 1 else 0 := by
  -- Past the entrance a call may touch the leases and the last time to live, and nothing else.
  cases c with
  | tryAcquire key ttl =>
      rw [perform, enter_eq hconn]
      cases (s.enter key).1 <;> simp [hconn, Call.hasKey, Call.key?]
  | release key =>
      rw [perform, enter_eq hconn]
      cases (s.enter key).1 <;> simp [hconn, Call.hasKey, Call.key?]
  | «exists» key =>
      rw [perform, enter_eq hconn]
      cases (s.enter key).1 <;> simp [hconn, Call.hasKey, Call.key?]
  | check probe => exact ⟨hconn, rfl, rfl, rfl⟩

theorem tryAcquire_of_connected (hconn : s.status = .connected) (hsound : s.failure = none)
    {key : String} (hkey : key ≠ "") (ttl : Duration) :
    s.perform (.tryAcquire key ttl)
      = (.ok (s.leases.acquire s.now key (s.now + ttl.nanos)).1,
        { s with calls := s.calls + 1,
                 leases := (s.leases.acquire s.now key (s.now + ttl.nanos)).2,
                 lastTtl := some ttl }) := by
  simp only [perform, enter_of_connected hconn hkey, hsound]

theorem release_of_connected (hconn : s.status = .connected) (hsound : s.failure = none)
    {key : String} (hkey : key ≠ "") :
    s.perform (.release key)
      = (.ok (s.leases.isLive s.now key),
        { s with calls := s.calls + 1, leases := s.leases.erase key }) := by
  simp only [perform, enter_of_connected hconn hkey, hsound, Leases.release]

theorem exists_of_connected (hconn : s.status = .connected) (hsound : s.failure = none)
    {key : String} (hkey : key ≠ "") :
    s.perform (.exists key)
      = (.ok (s.leases.isLive s.now key), { s with calls := s.calls + 1 }) := by
  simp only [perform, enter_of_connected hconn hkey, hsound]

end Tally

/-! ## After a failure -/

/-- The failure that a store which was told to fail has for a key. -/
def Failure.told (message key : String) : Failure :=
  if key = "" then .keyEmpty else .backendUnavailable (.stated message)

/-- The answer of a store that was told to fail. -/
def Call.inFailure (message : String) : Call → Answer
  | .tryAcquire key _ | .release key => .error (.told message key)
  | .exists _ => .ok false
  | .check _ => .ok true

/-- What a client of a store that was told to fail is told: whoever wants something of a key hears
of the failure, whoever asks about one hears no. The empty key never comes that far. -/
def ClientRequest.inFailure (message : String) : ClientRequest → Response
  | direct c => .answer (c.inFailure message)
  | lock l | unlock l => .result (.error (.told message l.rawKey))
  | validate _ rawKey => .result (.error (.told message rawKey))
  | isLocked _ | isAdmitted _ _ => .flag false

theorem ClientRequest.respond_inFailure (message : String) (r : ClientRequest) :
    r.respond (r.call.inFailure message) = r.inFailure message := by
  cases r <;>
    simp [respond, call, inFailure, Call.inFailure, Failure.told, Answer.granted, Answer.told,
      Except.toOption, Namespace.stored_eq_empty_iff]

namespace Tally

variable {s : Tally}

theorem enter_of_failure (hconn : s.status = .connected) {message : String}
    (hfail : s.failure = some message) (key : String) :
    s.enter key
      = (.error (.told message key), { s with calls := s.calls + if key ≠ "" then 1 else 0 }) := by
  by_cases hkey : key = ""
  · subst hkey
    rfl
  · rw [enter_of_connected hconn hkey, hfail, Failure.told, if_neg hkey, if_pos hkey]

/-- A store that was told to fail touches no lease. -/
theorem perform_of_failure (hconn : s.status = .connected) {message : String}
    (hfail : s.failure = some message) (c : Call) :
    (s.perform c).1 = c.inFailure message ∧ (s.perform c).2.leases = s.leases := by
  have henter := enter_of_failure hconn hfail
  cases c with
  | tryAcquire key ttl => simp only [perform, henter, Call.inFailure, and_self]
  | release key => simp only [perform, henter, Call.inFailure, and_self]
  | «exists» key => simp only [perform, henter, Call.inFailure, and_self]
  | check probe =>
      rw [perform, hconn]
      exact ⟨rfl, rfl⟩

end Tally

/-! ## Runs of both stores -/

/-- What happens in a run: the same request is made of both stores, or time passes, for the memory
store in a pause of some kind and for the counting store on a clock of its own. -/
inductive Beat
  | request (r : ClientRequest)
  | pause (p : Memory.Pause) (d : Duration)

namespace Beat

/-- How far a beat moves the clock of the memory store. -/
def onMemory : Beat → Nat
  | request _ => 0
  | pause p _ => p.length.nanos

/-- How far a beat moves the clock of the counting store. -/
def onTally : Beat → Nat
  | request _ => 0
  | pause _ d => d.nanos

/-- How far a run moves a clock. -/
def total (length : Beat → Nat) : List Beat → Nat
  | [] => 0
  | b :: rest => length b + total length rest

/-- Whether a beat is a request with a key that is not empty. -/
def hasKey : Beat → Bool
  | request r => r.hasKey
  | pause _ _ => false

/-- What is told at a beat if the store was told to fail. -/
def inFailure (message : String) : Beat → Option Response
  | request r => some (r.inFailure message)
  | pause _ _ => none

end Beat

/-- A run of a store that spends pauses in some way: what is told at each beat, and the store after
the run. -/
def play {σ : Type} [LeaseStore σ] (spend : Memory.Pause → Duration → σ → σ) (s : σ) :
    List Beat → List (Option Response) × σ
  | [] => ([], s)
  | .request r :: rest =>
      let (response, s) := r.script.run s
      let (told, last) := play spend s rest
      (some response :: told, last)
  | .pause p d :: rest =>
      let (told, last) := play spend (spend p d s) rest
      (none :: told, last)

/-- A memory store sweeps and moves its clock in a pause. -/
def Memory.Store.spend (p : Pause) (_ : Duration) (s : Store) : Store := (s.act p.action).2

/-- A counting store has a clock that moves, and nothing else. -/
def Tally.spend (_ : Memory.Pause) (d : Duration) (s : Tally) : Tally :=
  { s with now := s.now + d.nanos }

/-- Requests come down to one call, in runs as well. -/
theorem play_request {σ : Type} [LeaseStore σ] (spend : Memory.Pause → Duration → σ → σ) {s : σ}
    (hs : TurnsAwayEmptyKey s) (r : ClientRequest) (rest : List Beat) :
    play spend s (.request r :: rest)
      = (some (r.respond (LeaseStore.perform r.call s).1)
            :: (play spend (LeaseStore.perform r.call s).2 rest).1,
          (play spend (LeaseStore.perform r.call s).2 rest).2) := by
  simp only [play, r.run_script hs]

/-! ## The count and the failure -/

namespace Tally

variable {s : Tally}

/-- A run goes on in the same session, and counts the requests with a key. -/
theorem play_frame (hconn : s.status = .connected) (beats : List Beat) :
    (play spend s beats).2.status = .connected ∧
      (play spend s beats).2.calls = s.calls + beats.countP Beat.hasKey := by
  induction beats generalizing s with
  | nil => exact ⟨hconn, rfl⟩
  | cons beat rest ih =>
      cases beat with
      | request r =>
          obtain ⟨hstatus, -, -, hcalls⟩ := perform_frame hconn r.call
          obtain ⟨hlast, hcount⟩ := ih hstatus
          rw [play_request _ s.turnsAwayEmptyKey]
          refine ⟨hlast, ?_⟩
          calc (play spend (s.perform r.call).2 rest).2.calls
              = s.calls + (if r.hasKey then 1 else 0) + rest.countP Beat.hasKey := by
                rw [hcount, hcalls, r.hasKey_call]
            _ = s.calls + (Beat.request r :: rest).countP Beat.hasKey := by
                rw [List.countP_cons, Beat.hasKey]
                omega
      | pause p d => exact ih hconn

/-- A store that was told to fail goes on failing, and its leases stay as they are. -/
theorem play_of_failure (hconn : s.status = .connected) {message : String}
    (hfail : s.failure = some message) (beats : List Beat) :
    (play spend s beats).1 = beats.map (Beat.inFailure message) ∧
      (play spend s beats).2.leases = s.leases := by
  induction beats generalizing s with
  | nil => exact ⟨rfl, rfl⟩
  | cons beat rest ih =>
      cases beat with
      | request r =>
          obtain ⟨hstatus, -, hstill, -⟩ := perform_frame hconn r.call
          obtain ⟨hanswer, hsame⟩ := perform_of_failure hconn hfail r.call
          obtain ⟨htold, hleases⟩ := ih hstatus (hstill.trans hfail)
          rw [play_request _ s.turnsAwayEmptyKey]
          refine ⟨List.cons_eq_cons.mpr ⟨congrArg some ?_, htold⟩, hleases.trans hsame⟩
          exact (congrArg r.respond hanswer).trans (r.respond_inFailure message)
      | pause p d =>
          obtain ⟨htold, hleases⟩ := ih (s := s.spend p d) hconn hfail
          exact ⟨List.cons_eq_cons.mpr ⟨rfl, htold⟩, hleases⟩

end Tally

/-! ## Stores that nobody can tell apart -/

/-- No time to live elapses that was acquired in a run: whatever is left of the run after a request
that was granted a key moves the clock by less. -/
def NoneElapses (length : Beat → Nat) (beats : List Beat) (told : List (Option Response)) : Prop :=
  ∀ (i : Nat) (r : ClientRequest) (key : String) (ttl : Duration),
    beats[i]? = some (.request r) → r.call = .tryAcquire key ttl →
    told[i]? = some (some (r.respond (.ok true))) → Beat.total length (beats.drop i) < ttl.nanos

theorem NoneElapses.tail {length : Beat → Nat} {beat : Beat} {beats : List Beat}
    {t : Option Response} {told : List (Option Response)}
    (h : NoneElapses length (beat :: beats) (t :: told)) : NoneElapses length beats told :=
  fun i r key ttl hbeat hcall htold => h (i + 1) r key ttl hbeat hcall htold

theorem Beat.total_drop_le (length : Beat → Nat) (beats : List Beat) (i : Nat) :
    total length (beats.drop i) ≤ total length beats := by
  induction beats generalizing i with
  | nil => simp
  | cons beat rest ih =>
      cases i with
      | zero => exact Nat.le_refl _
      | succ i => exact Nat.le_trans (ih i) (Nat.le_add_left _ _)

/-- A run that is shorter than every time to live asked for. -/
theorem NoneElapses.of_total_lt {length : Beat → Nat} {beats : List Beat}
    {told : List (Option Response)}
    (h : ∀ r key ttl, .request r ∈ beats → r.call = .tryAcquire key ttl →
      Beat.total length beats < ttl.nanos) : NoneElapses length beats told := by
  intro i r key ttl hbeat hcall _
  have hall := h r key ttl (List.mem_of_getElem? hbeat) hcall
  exact Nat.lt_of_le_of_lt (Beat.total_drop_le length beats i) hall

/-- A run of a memory store in which every time to live that is asked for is accepted, being within
the bounds and with an end that the clock can name, and none that is acquired elapses, be it on the
clock of this store or on that of the other one. -/
structure Comparable (m : Memory.Store) (beats : List Beat) : Prop where
  accepted : ∀ r key ttl, .request r ∈ beats → r.call = .tryAcquire key ttl →
    ensureTtl ttl = .ok () ∧ m.now + Beat.total Beat.onMemory beats + ttl.nanos ≤ m.clockEnd
  onMemory : NoneElapses Beat.onMemory beats (play Memory.Store.spend m beats).1
  onTally : NoneElapses Beat.onTally beats (play Memory.Store.spend m beats).1

namespace Comparable

variable {m : Memory.Store} {r : ClientRequest} {rest : List Beat}

/-- The first request asks for a time to live that is accepted. -/
theorem accepts (h : Comparable m (.request r :: rest)) (key : String) (ttl : Duration)
    (hcall : r.call = .tryAcquire key ttl) : m.Accepts ttl := by
  obtain ⟨hbounds, hend⟩ := h.accepted r key ttl List.mem_cons_self hcall
  exact ⟨hbounds, by omega⟩

/-- What the first request is granted lasts until the run is over. -/
theorem outlasts (h : Comparable m (.request r :: rest)) (key : String) (ttl : Duration)
    (hcall : r.call = .tryAcquire key ttl) (hyes : (m.perform r.call).1 = .ok true) :
    Beat.total Beat.onMemory rest < ttl.nanos ∧ Beat.total Beat.onTally rest < ttl.nanos := by
  have htold : (play Memory.Store.spend m (.request r :: rest)).1[0]?
      = some (some (r.respond (.ok true))) := by
    rw [play_request _ m.turnsAwayEmptyKey, ← hyes]
    rfl
  have hmemory := h.onMemory 0 r key ttl rfl hcall htold
  have htally := h.onTally 0 r key ttl rfl hcall htold
  simp only [List.drop_zero, Beat.total, Beat.onMemory, Beat.onTally, Nat.zero_add]
    at hmemory htally
  exact ⟨hmemory, htally⟩

theorem of_request (h : Comparable m (.request r :: rest)) :
    Comparable (m.perform r.call).2 rest := by
  obtain ⟨haccepted, hmemory, htally⟩ := h
  obtain ⟨-, hnow, hend⟩ := m.perform_frame r.call
  rw [play_request _ m.turnsAwayEmptyKey] at hmemory htally
  refine ⟨fun q key ttl hq hcall => ?_, hmemory.tail, htally.tail⟩
  rw [hnow, hend]
  simpa only [Beat.total, Beat.onMemory, Nat.zero_add]
    using haccepted q key ttl (List.mem_cons_of_mem _ hq) hcall

theorem of_pause {p : Memory.Pause} {d : Duration} (h : Comparable m (.pause p d :: rest)) :
    Comparable (m.spend p d) rest := by
  obtain ⟨haccepted, hmemory, htally⟩ := h
  refine ⟨fun q key ttl hq hcall => ?_, hmemory.tail, htally.tail⟩
  obtain ⟨hbounds, hend⟩ := haccepted q key ttl (List.mem_cons_of_mem _ hq) hcall
  refine ⟨hbounds, ?_⟩
  calc (m.spend p d).now + Beat.total Beat.onMemory rest + ttl.nanos
      = m.now + Beat.total Beat.onMemory (.pause p d :: rest) + ttl.nanos := by
        rw [Memory.Store.spend, m.now_pause, Beat.total, Beat.onMemory, Nat.add_assoc m.now]
    _ ≤ m.clockEnd := hend
    _ = (m.spend p d).clockEnd := (m.later_pause p).clockEnd.symm

end Comparable

/-- Two connected stores hold the same keys now, and will do so at all instants that the memory
store comes to in `here` nanoseconds of its clock and the counting store in `there` nanoseconds. -/
structure Alongside (m : Memory.Store) (s : Tally) (here there : Nat) : Prop where
  connected : m.status = .connected
  connected' : s.status = .connected
  sound : s.failure = none
  isLive : ∀ n ≤ here, ∀ k ≤ there, ∀ key,
    m.leases.isLive (m.now + n) key = s.leases.isLive (s.now + k) key

namespace Alongside

variable {m : Memory.Store} {s : Tally} {here there : Nat}

theorem isLive_now (h : Alongside m s here there) (key : String) :
    m.leases.isLive m.now key = s.leases.isLive s.now key :=
  h.isLive 0 (Nat.zero_le _) 0 (Nat.zero_le _) key

/-- A key is set in both stores for longer than the rest of the run. -/
theorem insert (h : Alongside m s here there) (key : String) {ttl : Duration}
    (hhere : here < ttl.nanos) (hthere : there < ttl.nanos) (calls : Nat)
    (lastTtl : Option Duration) :
    Alongside { m with leases := m.leases.insert key (m.now + ttl.nanos) }
      { s with calls, leases := s.leases.insert key (s.now + ttl.nanos), lastTtl } here there := by
  refine ⟨h.connected, h.connected', h.sound, fun n hn k hk other => ?_⟩
  -- The new lease is live in both stores throughout, wherever the two clocks are.
  have hm : m.now + n < m.now + ttl.nanos := by omega
  have hs : s.now + k < s.now + ttl.nanos := by omega
  simp only [Leases.isLive_insert, hm, hs, h.isLive n hn k hk other]

theorem erase (h : Alongside m s here there) (key : String) (calls : Nat) :
    Alongside { m with leases := m.leases.erase key }
      { s with calls, leases := s.leases.erase key } here there := by
  refine ⟨h.connected, h.connected', h.sound, fun n hn k hk other => ?_⟩
  simp only [Leases.isLive_erase, h.isLive n hn k hk other]

/-- Nothing that can be told depends on the count or on the last time to live. -/
theorem counted (h : Alongside m s here there) (calls : Nat) (lastTtl : Option Duration) :
    Alongside m { s with calls, lastTtl } here there :=
  ⟨h.connected, h.connected', h.sound, h.isLive⟩

/-- A request for a key: it is granted by both stores or by none. -/
theorem tryAcquire (h : Alongside m s here there) {key : String} {ttl : Duration}
    (hacc : m.Accepts ttl)
    (hlong : (m.perform (.tryAcquire key ttl)).1 = .ok true →
      here < ttl.nanos ∧ there < ttl.nanos) :
    (s.perform (.tryAcquire key ttl)).1 = (m.perform (.tryAcquire key ttl)).1 ∧
      Alongside (m.perform (.tryAcquire key ttl)).2 (s.perform (.tryAcquire key ttl)).2
        here there := by
  by_cases hkey : key = ""
  · subst hkey
    exact ⟨rfl, h⟩
  · rw [Tally.tryAcquire_of_connected h.connected' h.sound hkey, Leases.acquire, ← h.isLive_now]
    rw [Memory.Store.perform] at hlong ⊢
    cases hlive : m.leases.isLive m.now key with
    | true =>
        rw [Memory.Store.tryAcquire_of_isLive h.connected hkey hacc hlive]
        exact ⟨rfl, h.counted _ _⟩
    | false =>
        rw [Memory.Store.tryAcquire_of_not_isLive h.connected hkey hacc hlive] at hlong ⊢
        obtain ⟨hhere, hthere⟩ := hlong rfl
        exact ⟨rfl, h.insert key hhere hthere _ _⟩

/-- A call to both stores: it is answered alike. -/
theorem perform (h : Alongside m s here there) (c : Call)
    (hacc : ∀ key ttl, c = .tryAcquire key ttl → m.Accepts ttl)
    (hlong : ∀ key ttl, c = .tryAcquire key ttl → (m.perform c).1 = .ok true →
      here < ttl.nanos ∧ there < ttl.nanos) :
    (s.perform c).1 = (m.perform c).1 ∧
      Alongside (m.perform c).2 (s.perform c).2 here there := by
  cases c with
  | tryAcquire key ttl => exact h.tryAcquire (hacc key ttl rfl) (hlong key ttl rfl)
  | release key =>
      by_cases hkey : key = ""
      · subst hkey
        exact ⟨rfl, h⟩
      · rw [Tally.release_of_connected h.connected' h.sound hkey, Memory.Store.perform,
          Memory.Store.release_of_connected h.connected hkey, h.isLive_now]
        exact ⟨rfl, h.erase key _⟩
  | «exists» key =>
      by_cases hkey : key = ""
      · subst hkey
        exact ⟨rfl, h⟩
      · rw [Tally.exists_of_connected h.connected' h.sound hkey, Memory.Store.perform,
          Memory.Store.exists?_of_connected h.connected hkey, h.isLive_now]
        exact ⟨rfl, h.counted _ _⟩
  | check probe =>
      rw [Tally.perform, Memory.Store.perform, h.connected, h.connected']
      exact ⟨rfl, h⟩

/-- Both clocks move on, and the memory store sweeps as it likes. -/
theorem spend {p : Memory.Pause} {d : Duration}
    (h : Alongside m s (p.length.nanos + here) (d.nanos + there)) :
    Alongside (m.spend p d) (s.spend p d) here there := by
  have hlater := m.later_pause p
  refine ⟨hlater.status.trans h.connected, h.connected', h.sound, fun n hn k hk key => ?_⟩
  calc (m.spend p d).leases.isLive ((m.spend p d).now + n) key
      = m.leases.isLive (m.now + (p.length.nanos + n)) key := by
        rw [Memory.Store.spend, hlater.isLive (Nat.le_add_right _ _), m.now_pause, Nat.add_assoc]
    _ = s.leases.isLive (s.now + (d.nanos + k)) key :=
        h.isLive _ (Nat.add_le_add_left hn _) _ (Nat.add_le_add_left hk _) key
    _ = (s.spend p d).leases.isLive ((s.spend p d).now + k) key := by
        rw [Tally.spend, Nat.add_assoc]

/-- Stores side by side tell the same all along a run in which no lease comes to its end. -/
theorem told_eq {beats : List Beat}
    (h : Alongside m s (Beat.total Beat.onMemory beats) (Beat.total Beat.onTally beats))
    (hcomp : Comparable m beats) :
    (play Tally.spend s beats).1 = (play Memory.Store.spend m beats).1 := by
  induction beats generalizing m s with
  | nil => rfl
  | cons beat rest ih =>
      cases beat with
      | request r =>
          have h :
              Alongside m s (Beat.total Beat.onMemory rest) (Beat.total Beat.onTally rest) := by
            simpa only [Beat.total, Beat.onMemory, Beat.onTally, Nat.zero_add] using h
          obtain ⟨hanswer, hnext⟩ := h.perform r.call hcomp.accepts hcomp.outlasts
          rw [play_request _ m.turnsAwayEmptyKey, play_request _ s.turnsAwayEmptyKey]
          refine List.cons_eq_cons.mpr ⟨?_, ih hnext hcomp.of_request⟩
          exact congrArg (fun a => some (r.respond a)) hanswer
      | pause p d => exact congrArg (none :: ·) (ih h.spend hcomp.of_pause)

end Alongside

/-- **A counting store stands in for a memory store.** After one connect each, the same requests
are made of both, through lockers, through admission guards or directly, and between the requests
both clocks move on and the memory store sweeps as it likes. Then the clients are told the same at
every step, failures included, if no time to live elapses that was acquired. At any time the count
is the number of the requests so far that had a key which was not empty. And once the counting
store was told to fail, whoever wants something of a key hears of that, nobody is told that a key is
there, and the leases stay as they are. -/
theorem stands_in (now clockEnd now' : Nat) (sweepInterval : Option Duration) :
    let m := ({ now, clockEnd, sweepInterval } : Memory.Store).connect.2
    let s := ({ now := now' } : Tally).connect.2
    (∀ beats, Comparable m beats →
      (play Tally.spend s beats).1 = (play Memory.Store.spend m beats).1) ∧
    (∀ beats, (play Tally.spend s beats).2.calls = beats.countP Beat.hasKey) ∧
    ∀ before message later,
      let failing := (play Tally.spend s before).2.failWith message
      (play Tally.spend failing later).1 = later.map (Beat.inFailure message) ∧
        (play Tally.spend failing later).2.leases = failing.leases := by
  intro m s
  have hconn : s.status = .connected := rfl
  refine ⟨fun beats hcomp => ?_, fun beats => ?_, fun before message later => ?_⟩
  · have hstart : Alongside m s (Beat.total Beat.onMemory beats) (Beat.total Beat.onTally beats) :=
      ⟨rfl, rfl, rfl, fun _ _ _ _ _ => rfl⟩
    exact hstart.told_eq hcomp
  · exact (Tally.play_frame hconn beats).2.trans (Nat.zero_add _)
  · intro failing
    have hlast : failing.status = .connected := (Tally.play_frame hconn before).1
    have hfail : failing.failure = some message := rfl
    exact Tally.play_of_failure hlast hfail later

/-- A run on a store with a sweep that goes off in the middle of it, with a clock that moves less
than that of the counting store. -/
theorem stands_in_job :
    let m := ({ now := 7, sweepInterval := some (.ofMillis 250) } : Memory.Store).connect.2
    let s := ({ now := 1000 } : Tally).connect.2
    let l : Locker := ⟨.locks, "a", .ofSeconds 30⟩
    let g : AdmissionGuard := ⟨.admissions, .ofSeconds 30⟩
    let beats : List Beat :=
      [.request (.lock l), .request (.validate g "a"), .request (.validate g ""),
        .pause (.pass (.ofSeconds 1)) (.ofSeconds 2), .request (.lock l), .request (.unlock l),
        .request (.direct (.tryAcquire "dlm:a" (.ofSeconds 5))), .request (.isAdmitted g "a")]
    Comparable m beats ∧
      (play Tally.spend s beats).1 = (play Memory.Store.spend m beats).1 ∧
      (play Tally.spend s beats).2.calls = 6 := by
  intro m s l g beats
  obtain ⟨hsame, hcount, -⟩ := stands_in 7 Memory.lastInstant 1000 (some (.ofMillis 250))
  have hasked : ∀ r key ttl, .request r ∈ beats → r.call = .tryAcquire key ttl →
      ttl = .ofSeconds 30 ∨ ttl = .ofSeconds 5 := by
    intro r key ttl hr hcall
    simp only [beats, List.mem_cons, Beat.request.injEq, reduceCtorEq, List.not_mem_nil, or_false,
      false_or] at hr
    rcases hr with rfl | rfl | rfl | rfl | rfl | rfl | rfl
    · exact Or.inl (by cases hcall; rfl)
    · exact Or.inl (by cases hcall; rfl)
    · exact Or.inl (by cases hcall; rfl)
    · exact Or.inl (by cases hcall; rfl)
    · cases hcall
    · exact Or.inr (by cases hcall; rfl)
    · cases hcall
  have hcomp : Comparable m beats := by
    refine ⟨fun r key ttl hr hcall => ?_, .of_total_lt fun r key ttl hr hcall => ?_,
      .of_total_lt fun r key ttl hr hcall => ?_⟩
    · rcases hasked r key ttl hr hcall with rfl | rfl <;>
        exact ⟨ensureTtl_eq_ok_iff.mpr (by decide), by decide⟩
    · rcases hasked r key ttl hr hcall with rfl | rfl <;> decide
    · rcases hasked r key ttl hr hcall with rfl | rfl <;> decide
  have hsix : beats.countP Beat.hasKey = 6 := by decide +kernel
  have hs : s = ({ now := 1000 } : Tally).connect.2 := rfl
  exact ⟨hcomp, hsame beats hcomp, by rw [hs, hcount, hsix]⟩

end KeyLease
