import KeyLease.Proofs.Clients.Isolation

set_option autoImplicit false

/-!
# Windows of admission

The admissions of a raw key open windows: each begins when a guard lets the key pass and is as long
as the time to live of that guard (`Window`). Guards of one namespace share their windows, however
long each guard's are. Nothing closes a window early, since guards give nothing back and lock
managers whose namespaces are apart from that of the guards know no key of theirs.

The main statement is `admissions_happen_once`. It goes through the leases of the store: the lease
that is open for a stored key of the guards is the window of its raw key (`openLease_iff_window`).
-/

namespace KeyLease

/-- Neither of two stems is a prefix of the other. -/
def Namespace.Apart (p q : Namespace) : Prop :=
  ¬ p.stem.toList <+: q.stem.toList ∧ ¬ q.stem.toList <+: p.stem.toList

instance (p q : Namespace) : Decidable (p.Apart q) := inferInstanceAs (Decidable (_ ∧ _))

theorem Namespace.Apart.ne {p q : Namespace} (h : p.Apart q) : p ≠ q := by
  rintro rfl
  exact h.1 (List.prefix_refl _)

theorem Namespace.Apart.not_overlap {p q : Namespace} (h : p.Apart q) : ¬ p.Overlap q := by
  rintro (hpq | hqp)
  · exact h.1 hpq.1
  · exact h.2 hqp.1

namespace Memory

/-! ## Windows -/

/-- The `i`-th event let `rawKey` pass, at the instant `opened`, which opens a window until
`closed`. -/
def Window (h : List Record) (rawKey : String) (i opened closed : Nat) : Prop :=
  ∃ r g, h[i]? = some r ∧ r.event = .request (.validate g rawKey) ∧
    r.response = some (.result (.ok ())) ∧ opened = r.time ∧ closed = r.time + g.ttl.nanos

/-- An event that is a request goes through a guard of the namespace, or through a locker of a
namespace apart from it. -/
def Shares (ns : Namespace) (e : Event) : Prop :=
  ∀ r, e = .request r → (∃ g, r.guard? = some g ∧ g.ns = ns) ∨
    (∃ l, r.locker? = some l ∧ ns.Apart l.ns)

namespace Shares

variable {ns : Namespace} {s : Store} {e : Event} {rawKey : String}

/-- No locker of a namespace apart has the stored key. -/
theorem stored_ne {p q : Namespace} (hapart : p.Apart q) (hraw : rawKey ≠ "") (rawKey' : String) :
    q.stored rawKey' ≠ p.stored rawKey := by
  intro heq
  exact hapart.ne (Namespace.stored_injective hapart.not_overlap hraw heq.symm).1

/-- The history of the store has a stored key granted where its raw key is let pass. -/
theorem granted?_iff (hshares : Shares ns e) (hraw : rawKey ≠ "") {closed : Nat} :
    (s.record e).entry.granted? (ns.stored rawKey) = some closed ↔
      ∃ g, e = .request (.validate g rawKey) ∧
        (s.record e).response = some (.result (.ok ())) ∧ closed = s.now + g.ttl.nanos := by
  rw [Store.granted?_record]
  constructor
  · rintro ⟨r, ttl, rfl, hcall, hok, rfl⟩
    rcases hshares r rfl with ⟨g, hg, rfl⟩ | ⟨l, hl, hapart⟩
    · obtain ⟨rawKey', rfl | rfl⟩ := ClientRequest.guard?_eq_some_iff.mp hg
      · obtain ⟨hstored, httl⟩ := Call.tryAcquire.inj hcall
        obtain rfl : rawKey = rawKey' :=
          (Namespace.stored_injective g.ns.not_overlap_self hraw hstored.symm).2
        refine ⟨g, rfl, ?_, by rw [httl]⟩
        rw [Store.record, Store.serve_request, ClientRequest.respond, hok]
        rfl
      · cases hcall
    · rcases ClientRequest.locker?_eq_some_iff.mp hl with rfl | rfl | rfl
      · exact absurd (Call.tryAcquire.inj hcall).1 (stored_ne hapart hraw _)
      · cases hcall
      · cases hcall
  · rintro ⟨g, rfl, hresp, rfl⟩
    rw [Store.record, Store.serve_request, Option.some.injEq] at hresp
    have hok : (s.perform (ClientRequest.validate g rawKey).call).1 = .ok true :=
      Answer.granted_eq_ok_iff.mp (Response.result.inj hresp)
    rcases hshares _ rfl with ⟨g', hg, rfl⟩ | ⟨l, hl, -⟩
    · obtain rfl : g = g' := Option.some.inj hg
      exact ⟨.validate g rawKey, g.ttl, rfl, rfl, hok, rfl⟩
    · cases hl

/-- Nothing gives a stored key of the guards back. -/
theorem ends_eq_false (hshares : Shares ns e) (hraw : rawKey ≠ "") :
    (s.record e).entry.ends (ns.stored rawKey) = false := by
  rw [← Bool.not_eq_true, Store.ends_record]
  rintro ⟨r, held, rfl, hcall, -⟩
  rcases hshares r rfl with ⟨g, hg, rfl⟩ | ⟨l, hl, hapart⟩
  · obtain ⟨rawKey', rfl | rfl⟩ := ClientRequest.guard?_eq_some_iff.mp hg
    · cases hcall
    · cases hcall
  · rcases ClientRequest.locker?_eq_some_iff.mp hl with rfl | rfl | rfl
    · cases hcall
    · exact stored_ne hapart hraw _ (Call.release.inj hcall)
    · cases hcall

end Shares

section

variable {ns : Namespace} {s : Store} {es : List Event} {rawKey : String}

/-- The leases that are open for a stored key of the guards are the open windows of its raw key. -/
theorem openLease_iff_window (hshares : ∀ e ∈ es, Shares ns e) (hraw : rawKey ≠ "") {now i : Nat}
    {closed : Nat} :
    OpenLease ((s.attend es).1.map (·.entry)) now (ns.stored rawKey) i closed ↔
      (∃ opened, Window (s.attend es).1 rawKey i opened closed) ∧ now < closed := by
  constructor
  · intro ho
    refine ⟨?_, ho.unexpired⟩
    obtain ⟨entry, hentry, hgranted⟩ := Option.bind_eq_some_iff.mp ho.granted
    obtain ⟨e, he, hr, rfl⟩ := Store.entry_of_getElem? hentry
    obtain ⟨g, hev, hresp, hclosed⟩ :=
      ((hshares e (List.mem_of_getElem? he)).granted?_iff hraw).mp hgranted
    exact ⟨_, _, g, hr, hev, hresp, rfl, hclosed⟩
  · rintro ⟨⟨opened, r, g, hr, hev, hresp, -, hclosed⟩, hlt⟩
    obtain ⟨e, he, rfl⟩ := Store.record_of_getElem? hr
    refine ⟨?_, hlt, ?_⟩
    · rw [List.getElem?_map, hr, Option.map_some, Option.bind_some]
      exact ((hshares e (List.mem_of_getElem? he)).granted?_iff hraw).mpr
        ⟨g, hev, hresp, hclosed⟩
    · intro j entry _ hentry
      obtain ⟨e', he', -, rfl⟩ := Store.entry_of_getElem? hentry
      exact (hshares e' (List.mem_of_getElem? he')).ends_eq_false hraw

theorem held_iff_window (hshares : ∀ e ∈ es, Shares ns e) (hraw : rawKey ≠ "") {now : Nat} :
    Held ((s.attend es).1.map (·.entry)) now (ns.stored rawKey) ↔
      ∃ i opened closed, Window (s.attend es).1 rawKey i opened closed ∧ now < closed := by
  constructor
  · rintro ⟨i, closed, ho⟩
    obtain ⟨⟨opened, hw⟩, hlt⟩ := (openLease_iff_window hshares hraw).mp ho
    exact ⟨i, opened, closed, hw, hlt⟩
  · rintro ⟨i, opened, closed, hw, hlt⟩
    exact ⟨i, closed, (openLease_iff_window hshares hraw).mpr ⟨⟨opened, hw⟩, hlt⟩⟩

theorem Window.take {h : List Record} {i opened closed j : Nat}
    (hw : Window h rawKey i opened closed) (hij : i < j) :
    Window (h.take j) rawKey i opened closed := by
  obtain ⟨r, g, hr, hrest⟩ := hw
  exact ⟨r, g, by rw [List.getElem?_take_of_lt hij, hr], hrest⟩

/-- A key that is granted was free. -/
theorem not_isLive_of_granted {key : String} {ttl : Duration}
    (h : (s.perform (.tryAcquire key ttl)).1 = .ok true) :
    s.leases.isLive s.now key = false := by
  rw [Store.perform] at h
  rcases s.tryAcquire_cases key ttl with ⟨e, he⟩ | ⟨hconn, hne, hacc⟩
  · rw [he] at h
    cases h
  · cases hlive : s.leases.isLive s.now key with
    | true =>
        rw [Store.tryAcquire_of_isLive hconn hne hacc hlive] at h
        cases h
    | false => rfl

/-- A window ends before the next one of the same raw key opens. -/
theorem Window.closed_le (hempty : s.leases = {}) (hshares : ∀ e ∈ es, Shares ns e)
    (hraw : rawKey ≠ "") {i j opened closed opened' closed' : Nat} (hij : i < j)
    (hi : Window (s.attend es).1 rawKey i opened closed)
    (hj : Window (s.attend es).1 rawKey j opened' closed') : closed ≤ opened' := by
  obtain ⟨r, g, hr, hev, hresp, rfl, -⟩ := hj
  obtain ⟨e, he, rfl⟩ := Store.record_of_getElem? hr
  -- Were the first window still open, the key would not be free when the second opens.
  rcases Nat.lt_or_ge (s.attend (es.take j)).2.now closed with hlt | hge
  · have hbefore := hi.take hij
    rw [← s.attend_take] at hbefore
    have hshares' : ∀ e ∈ es.take j, Shares ns e :=
      fun e he => hshares e (List.mem_of_mem_take he)
    have ho := (openLease_iff_window hshares' hraw).mpr ⟨⟨opened, hbefore⟩, hlt⟩
    have hlive := (s.tracks hempty (es.take j)).isLive_iff.mpr ⟨i, closed, ho⟩
    obtain rfl : e = .request (.validate g rawKey) := hev
    have hgranted := ((hshares _ (List.mem_of_getElem? he)).granted?_iff hraw).mpr
      ⟨g, rfl, hresp, rfl⟩
    obtain ⟨r', ttl, -, hcall, hok, -⟩ := Store.granted?_record.mp hgranted
    rw [hcall] at hok
    rw [not_isLive_of_granted hok] at hlive
    cases hlive
  · exact hge

end

/-! ## Admissions -/

/-- A raw key of the guards of a namespace, as the store answers about it by the windows. -/
structure OncePerWindow (ns : Namespace) (h : List Record) (s : Store) (rawKey key : String) :
    Prop where
  /-- Each window ends before the next one opens. -/
  disjoint : ∀ i j opened closed opened' closed', i < j → Window h rawKey i opened closed →
    Window h rawKey j opened' closed' → closed ≤ opened'
  /-- While a window is open, no guard lets the key pass. -/
  inside : ∀ i opened closed, Window h rawKey i opened closed → s.now < closed →
    ∀ g : AdmissionGuard, g.ns = ns →
      (s.Accepts g.ttl → (g.validate rawKey).run s = (.error (.conflict key), s)) ∧
        ((g.isAdmitted rawKey).run s).1 = true
  /-- While none is open, every guard does. -/
  outside : (∀ i opened closed, Window h rawKey i opened closed → closed ≤ s.now) →
    ∀ g : AdmissionGuard, g.ns = ns →
      (s.Accepts g.ttl → ((g.validate rawKey).run s).1 = .ok ()) ∧
        ((g.isAdmitted rawKey).run s).1 = false
  /-- No lock manager moves the end of a window. -/
  unmoved : ∀ (r : ClientRequest) (l : Locker), r.locker? = some l → ns.Apart l.ns →
    (r.script.run s).2.leases.expiry? key = s.leases.expiry? key

/-- **Exactly once per window.** Guards of one namespace admit raw keys over one session of a
store, each for its own time to live, while lock managers of namespaces apart from it lock and
unlock whatever they like, the store sweeps and its clock moves. At every moment the store answers
about each raw key by its windows; and leaving out all that the lock managers do changes no record
of an admission. -/
theorem admissions_happen_once (ns : Namespace) (s : Store) (es : List Event)
    (hconn : s.status = .connected) (hempty : s.leases = {}) (hshares : ∀ e ∈ es, Shares ns e) :
    (∀ rawKey key, ns.key rawKey = .ok key →
      OncePerWindow ns (s.attend es).1 (s.attend es).2 rawKey key) ∧
    (s.attend es).1.filter (·.event.asks (·.guard?.isSome))
      = (s.attend (es.filter (·.spares (·.guard?.isSome)))).1.filter
          (·.event.asks (·.guard?.isSome)) := by
  constructor
  · intro rawKey key hkey
    obtain ⟨hne, rfl⟩ := Namespace.key_eq_ok_iff.mp hkey
    have hraw : rawKey ≠ "" := fun hnil => hne (Namespace.stored_eq_empty_iff.mpr hnil)
    have hconn' : (s.attend es).2.status = .connected := (s.attend_frame es).1.trans hconn
    have htracks := s.tracks hempty es
    have hlawful := htracks.lawful hconn' hne
    obtain ⟨held, hasked, hasked_iff⟩ := hlawful.asked
    rw [Store.perform, Except.ok.injEq] at hasked
    refine ⟨?_, ?_, ?_, ?_⟩
    · intro i j opened closed opened' closed' hij hi hj
      exact hi.closed_le hempty hshares hraw hij hj
    · rintro i opened closed hw hlt g rfl
      have ho := (openLease_iff_window hshares hraw).mpr ⟨⟨opened, hw⟩, hlt⟩
      refine ⟨fun hacc => ?_, ?_⟩
      · rw [Store.run_validate, (hlawful.denied g.ttl i closed hacc ho).1]
        rfl
      · rw [Store.run_isAdmitted, hasked]
        exact hasked_iff.mpr ⟨i, closed, ho⟩
    · rintro hclosed g rfl
      have hfree : ¬ Held ((s.attend es).1.map (·.entry)) (s.attend es).2.now
          (g.ns.stored rawKey) := by
        rw [held_iff_window hshares hraw]
        rintro ⟨i, opened, closed, hw, hlt⟩
        exact absurd (hclosed i opened closed hw) (Nat.not_le_of_lt hlt)
      refine ⟨fun hacc => ?_, ?_⟩
      · obtain ⟨granted, hans, hiff⟩ := hlawful.acquired g.ttl hacc
        rw [Store.run_validate, hans, hiff.mpr hfree]
        rfl
      · rw [Store.run_isAdmitted, hasked, ← Bool.not_eq_true, hasked_iff]
        exact hfree
    · intro r l hl hapart
      rw [ClientRequest.run_script (Store.turnsAwayEmptyKey _)]
      refine Store.expiry?_perform_of_ne _ fun heq => ?_
      rcases ClientRequest.locker?_eq_some_iff.mp hl with rfl | rfl | rfl <;>
        exact Shares.stored_ne hapart hraw _ (Option.some.inj heq)
  · refine attend_filter_through ns s ?_ ?_
    · intro r hr hguard
      rcases hshares _ hr r rfl with ⟨g, hg, rfl⟩ | ⟨l, hl, -⟩
      · obtain ⟨rawKey, rfl | rfl⟩ := ClientRequest.guard?_eq_some_iff.mp hg <;> rfl
      · rcases ClientRequest.locker?_eq_some_iff.mp hl with rfl | rfl | rfl <;> cases hguard
    · intro r hr hguard
      rcases hshares _ hr r rfl with ⟨g, hg, -⟩ | ⟨l, hl, hapart⟩
      · rw [hg] at hguard
        cases hguard
      · refine ⟨l.ns, ?_, hapart.ne, hapart.not_overlap⟩
        rcases ClientRequest.locker?_eq_some_iff.mp hl with rfl | rfl | rfl <;> rfl

/-- A short run of two guards and a lock manager whose namespace has a longer name: the raw key is
let pass, then in conflict, then let pass again, whatever is locked and unlocked in between. -/
theorem admissions_happen_once_job :
    let job : Namespace := ⟨"job"⟩
    let short : AdmissionGuard := ⟨job, .ofMillis 5⟩
    let long : AdmissionGuard := ⟨job, .ofMillis 9⟩
    let locker : Locker := ⟨⟨"jobs"⟩, "a", .ofMillis 7⟩
    let start : Store := { status := .connected, sweepInterval := some (.ofMillis 3) }
    let es : List Event :=
      [.request (.validate short "a"), .request (.lock locker), .request (.validate long "a"),
        .request (.unlock locker), .pause (.pass (.ofMillis 5)), .request (.validate long "a"),
        .pause .sweep, .request (.isAdmitted short "a")]
    start.status = .connected ∧ start.leases = {} ∧ (∀ e ∈ es, Shares job e) ∧
      job.key "a" = .ok "job:a" ∧
      OncePerWindow job (start.attend es).1 (start.attend es).2 "a" "job:a" := by
  intro job short long locker start es
  have hapart : job.Apart locker.ns := by decide +kernel
  have hshares : ∀ e ∈ es, Shares job e := by
    rintro e he r rfl
    simp only [es, List.mem_cons, Event.request.injEq, reduceCtorEq, List.not_mem_nil, or_false,
      false_or] at he
    rcases he with rfl | rfl | rfl | rfl | rfl | rfl
    · exact Or.inl ⟨short, rfl, rfl⟩
    · exact Or.inr ⟨locker, rfl, hapart⟩
    · exact Or.inl ⟨long, rfl, rfl⟩
    · exact Or.inr ⟨locker, rfl, hapart⟩
    · exact Or.inl ⟨long, rfl, rfl⟩
    · exact Or.inl ⟨short, rfl, rfl⟩
  exact ⟨rfl, rfl, hshares, rfl,
    (admissions_happen_once job start es rfl rfl hshares).1 "a" "job:a" rfl⟩

end Memory

end KeyLease
