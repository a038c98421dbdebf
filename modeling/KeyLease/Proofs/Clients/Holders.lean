import KeyLease.Proofs.Clients.Session

set_option autoImplicit false

/-!
# Holders of locks

The leases of a store carry no owner, so who holds a lock is a matter of the clients alone. A
client holds a stored key from the moment at which a lock of its succeeds until the time to live
of that lock has elapsed or it unlocks the key (`Hold`). Nothing in the store keeps a client from
unlocking what another one holds. Where no client does so (`Disciplined`), the store keeps the
books of the clients: `locks_have_one_holder` says that nobody shares a lock, and that the store
answers as the holds say.

The invariant is `Hold.openLease`: what a client believes to hold is leased in the store, until the
same instant. It can break only where a lease ends before its hold, and that would take an unlock
by another client, which at that moment would hold the same lease.
-/

namespace KeyLease.Memory

variable {κ : Type}

/-! ## Holds -/

namespace Record

/-- The event was a lock of `key` that succeeded, for the time until `expiry`. -/
def Takes (r : Record) (key : String) (expiry : Nat) : Prop :=
  ∃ l, r.event = .request (.lock l) ∧ r.response = some (.result (.ok ())) ∧
    l.storedKey = .ok key ∧ expiry = r.time + l.ttl.nanos

/-- The event was an unlock of `key`. -/
def GivesBack (r : Record) (key : String) : Prop :=
  ∃ l, r.event = .request (.unlock l) ∧ l.storedKey = .ok key

end Record

/-- At the instant `now` client `c` holds `key`, by the `i`-th event of the records: the event was
a lock of the client's that succeeded, its time to live has not elapsed, and the client has not
unlocked the key since. `who` tells of each event whose it is. -/
structure Hold (who : Nat → κ) (h : List Record) (now : Nat) (c : κ) (key : String)
    (i expiry : Nat) : Prop where
  taken : ∃ r, h[i]? = some r ∧ r.Takes key expiry
  holder : who i = c
  unexpired : now < expiry
  kept : ∀ j r, i < j → h[j]? = some r → r.GivesBack key → who j ≠ c

/-- The client holds the key. -/
def Holds (who : Nat → κ) (h : List Record) (now : Nat) (c : κ) (key : String) : Prop :=
  ∃ i expiry, Hold who h now c key i expiry

/-- Every client calls unlock only on a stored key that it holds at that moment. -/
def Disciplined (who : Nat → κ) (s : Store) (es : List Event) : Prop :=
  ∀ j l, es[j]? = some (.request (.unlock l)) → ∃ key, l.storedKey = .ok key ∧
    Holds who (s.attend (es.take j)).1 (s.attend (es.take j)).2.now (who j) key

/-- A hold at an earlier moment, after the lock. -/
theorem Hold.take {who : Nat → κ} {h : List Record} {now now' : Nat} {c : κ} {key : String}
    {i expiry : Nat} (hold : Hold who h now c key i expiry) {j : Nat} (hij : i < j)
    (hle : now' ≤ now) : Hold who (h.take j) now' c key i expiry := by
  obtain ⟨r, hr, htakes⟩ := hold.taken
  refine ⟨⟨r, ?_, htakes⟩, hold.holder, Nat.lt_of_le_of_lt hle hold.unexpired, ?_⟩
  · rw [List.getElem?_take_of_lt hij, hr]
  · intro k r' hik hk hback
    rcases Nat.lt_or_ge k j with hkj | hge
    · rw [List.getElem?_take_of_lt hkj] at hk
      exact hold.kept k r' hik hk hback
    · rw [List.getElem?_take_eq_none hge] at hk
      cases hk

/-! ## Locks in the store's own history -/

/-- An event that is a request goes through a locker. -/
def OfLocker (e : Event) : Prop := ∀ r, e = .request r → ∃ l, r.locker? = some l

/-- An event takes a key exactly if the history of the store has it granted. -/
theorem takes_record {s : Store} {e : Event} (hlocker : OfLocker e)
    {key : String} {expiry : Nat} :
    (s.record e).Takes key expiry ↔ (s.record e).entry.granted? key = some expiry := by
  rw [Store.granted?_record]
  constructor
  · rintro ⟨l, hev, hresp, hkey, rfl⟩
    obtain rfl : e = .request (.lock l) := hev
    rw [Store.record, Store.serve_request, Option.some.injEq] at hresp
    have hok : (s.perform (ClientRequest.lock l).call).1 = .ok true :=
      Answer.granted_eq_ok_iff.mp (Response.result.inj hresp)
    have hcall : (ClientRequest.lock l).call = .tryAcquire key l.ttl := by
      rw [← (Namespace.key_eq_ok_iff.mp hkey).2]
      rfl
    exact ⟨.lock l, l.ttl, rfl, hcall, hok, rfl⟩
  · rintro ⟨r, ttl, rfl, hcall, hok, rfl⟩
    obtain ⟨l, hl⟩ := hlocker r rfl
    rcases ClientRequest.locker?_eq_some_iff.mp hl with rfl | rfl | rfl
    · obtain ⟨hstored, httl⟩ := Call.tryAcquire.inj hcall
      have hne : key ≠ "" := by
        rintro rfl
        rw [hcall] at hok
        cases hok
      refine ⟨l, rfl, ?_, Namespace.key_eq_ok_iff.mpr ⟨hne, hstored⟩, by rw [httl]; rfl⟩
      rw [Store.record, Store.serve_request, ClientRequest.respond, hok]
      rfl
    · cases hcall
    · cases hcall

/-- An event gives a key back exactly if the history of the store has it ended. -/
theorem givesBack_record {s : Store} {e : Event} (hconn : s.status = .connected)
    (hlocker : OfLocker e) {key : String} :
    (s.record e).GivesBack key ↔ (s.record e).entry.ends key = true := by
  rw [Store.ends_record]
  constructor
  · rintro ⟨l, hev, hkey⟩
    obtain rfl : e = .request (.unlock l) := hev
    obtain ⟨hne, hstored⟩ := Namespace.key_eq_ok_iff.mp hkey
    have hcall : (ClientRequest.unlock l).call = .release key := by
      rw [← hstored]
      rfl
    refine ⟨.unlock l, s.leases.isLive s.now key, rfl, hcall, ?_⟩
    rw [hcall]
    exact congrArg Prod.fst (Store.release_of_connected hconn hne)
  · rintro ⟨r, held, rfl, hcall, hok⟩
    obtain ⟨l, hl⟩ := hlocker r rfl
    rcases ClientRequest.locker?_eq_some_iff.mp hl with rfl | rfl | rfl
    · cases hcall
    · have hne : key ≠ "" := by
        rintro rfl
        rw [hcall] at hok
        cases hok
      exact ⟨l, rfl, Namespace.key_eq_ok_iff.mpr ⟨hne, Call.release.inj hcall⟩⟩
    · cases hcall

/-! ## Holds are leases -/

section

variable {who : Nat → κ} {s : Store} {es : List Event}

theorem Disciplined.take (hdisc : Disciplined who s es) (j : Nat) :
    Disciplined who s (es.take j) := by
  intro k l hk
  rcases Nat.lt_or_ge k j with hkj | hge
  · rw [List.getElem?_take_of_lt hkj] at hk
    have htake : (es.take j).take k = es.take k := by
      rw [List.take_take, Nat.min_eq_left (Nat.le_of_lt hkj)]
    rw [htake]
    exact hdisc k l hk
  · rw [List.getElem?_take_eq_none hge] at hk
    cases hk

/-- What is leased is held by the client that took it. -/
theorem hold_of_openLease (hconn : s.status = .connected)
    (hlockers : ∀ e ∈ es, OfLocker e) {now : Nat} {key : String} {i expiry : Nat}
    (ho : OpenLease ((s.attend es).1.map (·.entry)) now key i expiry) :
    Hold who (s.attend es).1 now (who i) key i expiry := by
  obtain ⟨entry, hentry, hgranted⟩ := Option.bind_eq_some_iff.mp ho.granted
  obtain ⟨e, he, hr, rfl⟩ := Store.entry_of_getElem? hentry
  refine ⟨⟨_, hr, ?_⟩, rfl, ho.unexpired, ?_⟩
  · exact (takes_record (hlockers e (List.mem_of_getElem? he))).mpr hgranted
  · -- Nobody at all has given the key back since.
    intro j r' hij hj hback
    obtain ⟨e, he, rfl⟩ := Store.record_of_getElem? hj
    have hconn' := ((s.attend_frame (es.take j)).1).trans hconn
    have hends := (givesBack_record hconn' (hlockers e (List.mem_of_getElem? he))).mp hback
    have hkept := ho.kept j _ hij (by rw [List.getElem?_map, hj, Option.map_some])
    rw [hends] at hkept
    cases hkept

/-- What is held is leased, until the same instant. -/
theorem Hold.openLease (hconn : s.status = .connected) (hempty : s.leases = {})
    (hlockers : ∀ e ∈ es, OfLocker e) (hdisc : Disciplined who s es) {c : κ}
    {key : String} {i expiry : Nat}
    (hold : Hold who (s.attend es).1 (s.attend es).2.now c key i expiry) :
    OpenLease ((s.attend es).1.map (·.entry)) (s.attend es).2.now key i expiry := by
  -- By induction on the session: that nobody else has unlocked the key is known from the holds
  -- that there were before the unlock.
  induction hn : es.length using Nat.strongRecOn generalizing es c key i expiry with
  | ind n ih =>
      obtain ⟨r, hr, htakes⟩ := hold.taken
      refine ⟨?_, hold.unexpired, ?_⟩
      · obtain ⟨e, he, rfl⟩ := Store.record_of_getElem? hr
        rw [List.getElem?_map, hr, Option.map_some, Option.bind_some]
        exact (takes_record (hlockers e (List.mem_of_getElem? he))).mp htakes
      · intro j entry hij hentry
        obtain ⟨e, he, hj, rfl⟩ := Store.entry_of_getElem? hentry
        have hconn' := ((s.attend_frame (es.take j)).1).trans hconn
        rw [← Bool.not_eq_true]
        intro hends
        have hback := (givesBack_record hconn' (hlockers e (List.mem_of_getElem? he))).mpr hends
        have hother : who j ≠ c := hold.kept j _ hij hj hback
        -- The client that unlocks the key holds it at that moment, and so does `c`.
        obtain ⟨l, hev, hkey⟩ := hback
        obtain rfl : e = .request (.unlock l) := hev
        obtain ⟨key', hkey', i', expiry', hown⟩ := hdisc j l he
        obtain rfl : key = key' := Except.ok.inj (hkey.symm.trans hkey')
        have hbefore := hold.take hij (s.now_take_le es j)
        rw [← s.attend_take] at hbefore
        -- Both holds are leases by then, and a key has one lease at most.
        have hlt : (es.take j).length < n := by
          have hjlt := (List.getElem?_eq_some_iff.mp he).1
          rw [List.length_take, ← hn]
          omega
        have hlockers' : ∀ e ∈ es.take j, OfLocker e :=
          fun e he => hlockers e (List.mem_of_mem_take he)
        have ho := ih _ hlt hlockers' (hdisc.take j) hbefore rfl
        have ho' := ih _ hlt hlockers' (hdisc.take j) hown rfl
        have hii : i = i' := (s.tracks hempty (es.take j)).unique key i i' expiry expiry' ho ho'
        exact hother (by rw [← hown.holder, ← hii, hold.holder])

theorem held_iff_holds (hconn : s.status = .connected) (hempty : s.leases = {})
    (hlockers : ∀ e ∈ es, OfLocker e) (hdisc : Disciplined who s es) {key : String} :
    Held ((s.attend es).1.map (·.entry)) (s.attend es).2.now key ↔
      ∃ c, Holds who (s.attend es).1 (s.attend es).2.now c key := by
  constructor
  · rintro ⟨i, expiry, ho⟩
    exact ⟨who i, i, expiry, hold_of_openLease hconn hlockers ho⟩
  · rintro ⟨c, i, expiry, hold⟩
    exact ⟨i, expiry, hold.openLease hconn hempty hlockers hdisc⟩

end

/-! ## One holder -/

/-- A key of a store, as the clients that hold locks may take it to be. -/
structure OneHolder (who : Nat → κ) (h : List Record) (s : Store) (key : String) : Prop where
  /-- One client holds the key at most, by one lock. -/
  unique : ∀ c c' i j expiry expiry', Hold who h s.now c key i expiry →
    Hold who h s.now c' key j expiry' → c = c' ∧ i = j
  /-- A client that holds the key can unlock it. -/
  unlocked : ∀ c (l : Locker), Holds who h s.now c key → l.storedKey = .ok key →
    (l.unlock.run s).1 = .ok ()
  /-- That leaves alone what other clients hold. -/
  spared : ∀ c (l : Locker), Holds who h s.now c key → l.storedKey = .ok key →
    ∀ c' key' i expiry, c' ≠ c → Hold who h s.now c' key' i expiry →
      (l.unlock.run s).2.leases.expiry? key' = some expiry
  /-- A lock is denied exactly if some client holds the key. -/
  locked : ∀ l : Locker, l.storedKey = .ok key → s.Accepts l.ttl →
    ((l.lock.run s).1 = .error (.alreadyLocked key) ↔ ∃ c, Holds who h s.now c key) ∧
      ((l.lock.run s).1 = .ok () ↔ ¬ ∃ c, Holds who h s.now c key)
  asked : ∀ l : Locker, l.storedKey = .ok key →
    ((l.isLocked.run s).1 = true ↔ ∃ c, Holds who h s.now c key)

/-- **One holder per lock.** Any number of clients lock and unlock through lockers over one session
of a store, with any namespaces, keys and times to live, while the store sweeps and its clock
moves. If every client unlocks only what it holds, then at every moment each key is held by at most
one client, that client can unlock it without harm to what others hold, and the store answers about
the key as the holds say. -/
theorem locks_have_one_holder (who : Nat → κ) (s : Store) (es : List Event)
    (hconn : s.status = .connected) (hempty : s.leases = {})
    (hlockers : ∀ e ∈ es, OfLocker e) (hdisc : Disciplined who s es)
    (key : String) : OneHolder who (s.attend es).1 (s.attend es).2 key := by
  have htracks := s.tracks hempty es
  have hconn' : (s.attend es).2.status = .connected := (s.attend_frame es).1.trans hconn
  have hheld : Held ((s.attend es).1.map (·.entry)) (s.attend es).2.now key ↔
      ∃ c, Holds who (s.attend es).1 (s.attend es).2.now c key :=
    held_iff_holds hconn hempty hlockers hdisc
  have hunique : ∀ c c' i j expiry expiry',
      Hold who (s.attend es).1 (s.attend es).2.now c key i expiry →
      Hold who (s.attend es).1 (s.attend es).2.now c' key j expiry' → c = c' ∧ i = j := by
    intro c c' i j expiry expiry' hold hold'
    have hij : i = j := htracks.unique key i j expiry expiry'
      (hold.openLease hconn hempty hlockers hdisc) (hold'.openLease hconn hempty hlockers hdisc)
    exact ⟨by rw [← hold.holder, ← hold'.holder, hij], hij⟩
  refine ⟨hunique, ?_, ?_, ?_, ?_⟩
  · intro c l hold hl
    obtain ⟨hne, hstored⟩ := Namespace.key_eq_ok_iff.mp hl
    obtain ⟨held, hans, hiff⟩ := (htracks.lawful hconn' hne).released
    rw [Store.run_unlock, hstored, hans, hiff.mpr (hheld.mpr ⟨c, hold⟩)]
    rfl
  · rintro c l ⟨i, expiry, hold⟩ hl c' key' i' expiry' hne hold'
    have hkeys : key' ≠ key := by
      rintro rfl
      exact hne (hunique c' c i' i expiry' expiry hold' hold).1
    rw [Store.run_unlock, (Namespace.key_eq_ok_iff.mp hl).2, Store.expiry?_perform_of_ne]
    · have ho := hold'.openLease hconn hempty hlockers hdisc
      exact (htracks.agree key' expiry' hold'.unexpired).mpr ⟨i', ho⟩
    · intro heq
      exact hkeys (Option.some.inj heq).symm
  · intro l hl hacc
    obtain ⟨hne, hstored⟩ := Namespace.key_eq_ok_iff.mp hl
    obtain ⟨granted, hans, hiff⟩ := (htracks.lawful hconn' hne).acquired l.ttl hacc
    rw [Store.run_lock, hstored, hans, ← hheld]
    cases granted with
    | false => simpa [Answer.granted] using hiff
    | true => simpa [Answer.granted] using hiff
  · intro l hl
    obtain ⟨hne, hstored⟩ := Namespace.key_eq_ok_iff.mp hl
    obtain ⟨held, hans, hiff⟩ := (htracks.lawful hconn' hne).asked
    rw [Store.perform, Except.ok.injEq] at hans
    rw [Store.run_isLocked, hstored, hans, ← hheld, ← hiff]

/-- Two clients whose lockers have one stored key: the second is denied while the first holds it,
takes it over once the time to live of the first has elapsed, and unlocks it. -/
theorem locks_have_one_holder_takeover :
    let first : Locker := ⟨⟨"a"⟩, "b:c", .ofMillis 5⟩
    let second : Locker := ⟨⟨"a:b"⟩, "c", .ofMillis 9⟩
    let who : Nat → Bool := fun i => decide (0 < i)
    let start : Store := { status := .connected, sweepInterval := some (.ofMillis 3) }
    let es : List Event :=
      [.request (.lock first), .request (.lock second), .pause (.jump (.ofMillis 6)),
        .request (.lock second), .pause .sweep, .request (.unlock second)]
    start.status = .connected ∧ start.leases = {} ∧ (∀ e ∈ es, OfLocker e) ∧
      Disciplined who start es ∧
      OneHolder who (start.attend es).1 (start.attend es).2 "a:b:c" := by
  intro first second who start es
  have hlockers : ∀ e ∈ es, OfLocker e := by
    rintro e he r rfl
    simp only [es, List.mem_cons, Event.request.injEq, reduceCtorEq, List.not_mem_nil, or_false,
      false_or] at he
    rcases he with rfl | rfl | rfl | rfl
    · exact ⟨first, rfl⟩
    · exact ⟨second, rfl⟩
    · exact ⟨second, rfl⟩
    · exact ⟨second, rfl⟩
  have hdisc : Disciplined who start es := by
    intro j l hj
    -- The one unlock comes last, after the lock at position 3.
    obtain ⟨rfl, rfl⟩ : j = 5 ∧ l = second := by
      rcases j with _ | _ | _ | _ | _ | _ | j <;> simp [es] at hj
      exact ⟨rfl, hj.symm⟩
    let s := (start.attend (es.take 3)).2
    have hfree : s.leases.isLive s.now "a:b:c" = false := by decide +kernel
    have hend : 15000000 = (s.record (.request (.lock second))).time + second.ttl.nanos := by
      decide +kernel
    have hacc : s.Accepts second.ttl := ⟨ensureTtl_eq_ok_iff.mpr (by decide), by decide +kernel⟩
    have htaken : (s.record (.request (.lock second))).response = some (.result (.ok ())) := by
      have hconn : s.status = .connected := (start.attend_frame (es.take 3)).1
      have hkey : second.ns.stored second.rawKey = "a:b:c" := rfl
      simp only [Store.record, Store.serve_request, ClientRequest.call, ClientRequest.respond, hkey,
        Store.perform, Store.tryAcquire_of_not_isLive hconn (by decide) hacc hfree, Answer.granted]
    have hrecord : (start.attend (es.take 5)).1[3]? = some (s.record (.request (.lock second))) :=
      start.attend_getElem? (es.take 5) 3
    refine ⟨"a:b:c", rfl, 3, 15000000, ⟨_, hrecord, second, rfl, htaken, rfl, hend⟩, rfl,
      by decide, ?_⟩
    rintro j r hij hr ⟨l, hl, -⟩
    rcases j with _ | _ | _ | _ | _ | j
    · omega
    · omega
    · omega
    · omega
    · cases hr
      cases hl
    · cases hr
  exact ⟨rfl, rfl, hlockers, hdisc,
    locks_have_one_holder who start es rfl rfl hlockers hdisc "a:b:c"⟩

end KeyLease.Memory
