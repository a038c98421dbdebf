import KeyLease.Proofs.Clients.Session
import Mathlib.Data.List.Infix

set_option autoImplicit false

/-!
# Isolation of namespaces

The stored keys of a namespace are the texts that go on after its stem, the name and the separator.
Names and raw keys may have the separator in them, so two namespaces share stored keys exactly if
the stem of one is a proper prefix of the stem of the other (`Namespace.Overlap`).

Namespaces that do not overlap can share a store without noticing each other. The invariant is
`AlikeOn`: two stores hold the same keys of one namespace, now and as time passes. Requests through
other namespaces leave it alone, and what happens to both stores keeps it. The main statement is
`namespaces_isolate`.
-/

namespace KeyLease

namespace Namespace

/-! ## Stems -/

/-- The stem of `p` is a proper prefix of the stem of `q`. -/
def StemOf (p q : Namespace) : Prop := p.stem.toList <+: q.stem.toList ∧ p.stem ≠ q.stem

/-- One of two stems is a proper prefix of the other. -/
def Overlap (p q : Namespace) : Prop := p.StemOf q ∨ q.StemOf p

instance (p q : Namespace) : Decidable (p.StemOf q) := inferInstanceAs (Decidable (_ ∧ _))
instance (p q : Namespace) : Decidable (p.Overlap q) := inferInstanceAs (Decidable (_ ∨ _))

theorem stem_injective {p q : Namespace} (h : p.stem = q.stem) : p = q := by
  rcases p with ⟨p⟩
  rcases q with ⟨q⟩
  have hname : p = q := by simpa [stem] using h
  rw [hname]

theorem not_overlap_self (p : Namespace) : ¬ p.Overlap p := by
  rintro (h | h)
  · exact h.2 rfl
  · exact h.2 rfl

/-- The stems of two namespaces that have a stored key in common are prefixes of that key, so one
of them is a prefix of the other. -/
theorem stored_injective {p q : Namespace} {r r' : String} (hpq : ¬ p.Overlap q) (hr : r ≠ "")
    (h : p.stored r = q.stored r') : p = q ∧ r = r' := by
  have hr' : r' ≠ "" := by
    intro hnil
    rw [stored_eq_empty_iff.mpr hnil, stored_eq_empty_iff] at h
    exact hr h
  rw [stored_eq hr, stored_eq hr'] at h
  have hlist : p.stem.toList ++ r.toList = q.stem.toList ++ r'.toList := by
    simpa using congrArg String.toList h
  have hp : p.stem.toList <+: q.stem.toList ++ r'.toList := hlist ▸ List.prefix_append _ _
  have hstem : p.stem = q.stem := by
    by_contra hne
    rcases List.prefix_or_prefix_of_prefix hp (List.prefix_append _ _) with hle | hle
    · exact hpq (Or.inl ⟨hle, hne⟩)
    · exact hpq (Or.inr ⟨hle, Ne.symm hne⟩)
  refine ⟨stem_injective hstem, ?_⟩
  rw [hstem] at h
  simpa using h

/-- Where the stem of one namespace goes on to the stem of another, the rest of the longer stem
can be put into the raw key instead. -/
theorem exists_stored_eq {p q : Namespace} (h : p.StemOf q) :
    ∃ r r', r ≠ "" ∧ r' ≠ "" ∧ p.stored r = q.stored r' := by
  obtain ⟨⟨rest, hrest⟩, -⟩ := h
  have hstem : p.stem ++ String.ofList rest = q.stem := by
    apply String.toList_injective
    simpa using hrest
  have hx : ("x" : String) ≠ "" := by decide
  have hrx : String.ofList rest ++ "x" ≠ "" := by
    intro hnil
    exact hx (String.append_eq_empty_iff.mp hnil).2
  refine ⟨String.ofList rest ++ "x", "x", hrx, hx, ?_⟩
  rw [stored_eq hrx, stored_eq hx, ← hstem, String.append_assoc]

end Namespace

namespace Memory

/-! ## What is done about other keys -/

namespace AlikeOn

variable {K : String → Prop} {s s' : Store}

/-- A pause of both stores. -/
theorem pause (hal : AlikeOn K s s') (p : Pause) :
    AlikeOn K (s.act p.action).2 (s'.act p.action).2 := by
  refine hal.later (s.later_pause p) (s'.later_pause p) ?_
  rw [s.now_pause, s'.now_pause, hal.now]

/-- A call about other keys to one store only. -/
theorem aside (hal : AlikeOn K s s') {c : Call} (hc : ∀ key, c.key? = some key → ¬ K key) :
    AlikeOn K (s.perform c).2 s' := by
  obtain ⟨hstatus, hnow, hend⟩ := s.perform_frame c
  refine ⟨hnow.trans hal.now, hend.trans hal.clockEnd, hstatus.trans hal.status, ?_⟩
  intro t key hkey hle
  rw [s.isLive_perform_of_ne fun heq => hc key heq hkey]
  exact hal.isLive t key hkey (hnow ▸ hle)

/-- Leaving out requests about other keys changes no record of a request about keys in `K`. -/
theorem attend_filter (hal : AlikeOn K s s') {kind : ClientRequest → Bool} {es : List Event}
    (hin : ∀ r, .request r ∈ es → kind r = true →
      ∀ key, r.call.key? = some key → key ≠ "" → K key)
    (hout : ∀ r, .request r ∈ es → kind r = false → ∀ key, r.call.key? = some key → ¬ K key) :
    (s.attend es).1.filter (·.event.asks kind)
      = (s'.attend (es.filter (·.spares kind))).1.filter (·.event.asks kind) := by
  induction es generalizing s s' with
  | nil => rfl
  | cons e es ih =>
      have hin' := fun r hr => hin r (List.mem_cons_of_mem e hr)
      have hout' := fun r hr => hout r (List.mem_cons_of_mem e hr)
      cases e with
      | pause p =>
          have hrest := ih (hal.pause p) hin' hout'
          simpa [Store.attend, Event.spares, Event.asks, Store.record, Store.serve] using hrest
      | request r =>
          have hmem : Event.request r ∈ Event.request r :: es := List.mem_cons_self
          cases hr : kind r with
          | true =>
              -- The request is made to both stores, and both records are the same.
              obtain ⟨hsame, hnext⟩ := hal.perform (hin r hmem hr)
              have hrecord : s.record (.request r) = s'.record (.request r) := by
                simp only [Store.record, Store.serve_request, Store.entry, Event.action, Store.act,
                  hsame, hal.now]
              have hserved : AlikeOn K (s.serve (.request r)).2 (s'.serve (.request r)).2 := by
                rw [Store.serve_request, Store.serve_request]
                exact hnext
              have hrest := ih hserved hin' hout'
              have hspares : (Event.request r).spares kind = true := hr
              have hasks : (s'.record (.request r)).event.asks kind = true := hr
              simp only [Store.attend, List.filter_cons, hspares, if_true, hrecord, hasks, hrest]
          | false =>
              -- The request is made to one store only.
              have hserved : AlikeOn K (s.serve (.request r)).2 s' := by
                rw [Store.serve_request]
                exact hal.aside (hout r hmem hr)
              have hrest := ih hserved hin' hout'
              have hspares : (Event.request r).spares kind = false := hr
              have hasks : (s.record (.request r)).event.asks kind = false := hr
              simp only [Store.attend, List.filter_cons, hspares, hasks, Bool.false_eq_true,
                if_false, hrest]

end AlikeOn

end Memory

/-! ## Isolation -/

/-- Whether a request goes through a namespace. -/
def ClientRequest.through (ns : Namespace) (r : ClientRequest) : Bool := r.ns? = some ns

/-- A request through a namespace is about a stored key of it, or about no key. -/
theorem ClientRequest.key?_call {r : ClientRequest} {ns : Namespace} (h : r.ns? = some ns) :
    ∃ rawKey, r.call.key? = some (ns.stored rawKey) := by
  cases r with
  | direct c => cases h
  | lock l => cases h; exact ⟨l.rawKey, rfl⟩
  | unlock l => cases h; exact ⟨l.rawKey, rfl⟩
  | isLocked l => cases h; exact ⟨l.rawKey, rfl⟩
  | validate g rawKey => cases h; exact ⟨rawKey, rfl⟩
  | isAdmitted g rawKey => cases h; exact ⟨rawKey, rfl⟩

namespace Memory

/-- Leaving out requests through namespaces that do not overlap `p` changes no record of a request
through `p`. -/
theorem attend_filter_through (p : Namespace) (s : Store) {kind : ClientRequest → Bool}
    {es : List Event} (hin : ∀ r, .request r ∈ es → kind r = true → r.ns? = some p)
    (hout : ∀ r, .request r ∈ es → kind r = false →
      ∃ q, r.ns? = some q ∧ p ≠ q ∧ ¬ p.Overlap q) :
    (s.attend es).1.filter (·.event.asks kind)
      = (s.attend (es.filter (·.spares kind))).1.filter (·.event.asks kind) := by
  refine (AlikeOn.refl (fun key => ∃ raw, raw ≠ "" ∧ key = p.stored raw) s).attend_filter ?_ ?_
  · intro r hr hkind key hkey hne
    obtain ⟨raw, hraw⟩ := r.key?_call (hin r hr hkind)
    have heq : key = p.stored raw := Option.some.inj (hkey.symm.trans hraw)
    exact ⟨raw, fun hnil => hne (heq.trans (Namespace.stored_eq_empty_iff.mpr hnil)), heq⟩
  · rintro r hr hkind key hkey ⟨raw, hraw, heq⟩
    obtain ⟨q, hq, hpq, hoverlap⟩ := hout r hr hkind
    obtain ⟨raw', hraw'⟩ := r.key?_call hq
    have hsame : p.stored raw = q.stored raw' :=
      heq.symm.trans (Option.some.inj (hkey.symm.trans hraw'))
    exact hpq (Namespace.stored_injective hoverlap hraw hsame).1

/-- **Isolation.** Namespaces that do not overlap have no stored key in common, and each has one
stored key for one raw key; two that do overlap have one in common. So what is done through
namespaces that do not overlap `p` makes no difference to what is done through `p`: leave it out,
and every request through `p` still has the same record, with the same result. -/
theorem namespaces_isolate :
    (∀ p q : Namespace, ¬ p.Overlap q → ∀ r s, r ≠ "" → s ≠ "" → p.key r = q.key s →
      p = q ∧ r = s) ∧
    (∀ p q : Namespace, p.Overlap q → p ≠ q ∧ ∃ r s, r ≠ "" ∧ s ≠ "" ∧ p.key r = q.key s) ∧
    (∀ (p : Namespace) (store : Store) (es : List Event),
      (∀ r, .request r ∈ es → ∃ q, r.ns? = some q ∧ ¬ p.Overlap q) →
      (store.attend es).1.filter (·.event.asks (ClientRequest.through p))
        = (store.attend (es.filter (·.spares (ClientRequest.through p)))).1.filter
            (·.event.asks (ClientRequest.through p))) := by
  refine ⟨?_, ?_, ?_⟩
  · intro p q hpq r s hr hs hkey
    rw [Namespace.key_eq_stored hr, Namespace.key_eq_stored hs, Except.ok.injEq] at hkey
    exact Namespace.stored_injective hpq hr hkey
  · rintro p q (hpq | hqp)
    · obtain ⟨r, s, hr, hs, heq⟩ := Namespace.exists_stored_eq hpq
      refine ⟨fun h => hpq.2 (by rw [h]), r, s, hr, hs, ?_⟩
      rw [Namespace.key_eq_stored hr, Namespace.key_eq_stored hs, heq]
    · obtain ⟨s, r, hs, hr, heq⟩ := Namespace.exists_stored_eq hqp
      refine ⟨fun h => hqp.2 (by rw [h]), r, s, hr, hs, ?_⟩
      rw [Namespace.key_eq_stored hr, Namespace.key_eq_stored hs, heq]
  · intro p store es hes
    refine attend_filter_through p store ?_ ?_
    · intro r _ hthrough
      exact of_decide_eq_true hthrough
    · intro r hr hthrough
      obtain ⟨q, hq, hoverlap⟩ := hes r hr
      refine ⟨q, hq, ?_, hoverlap⟩
      rintro rfl
      simp [ClientRequest.through, hq] at hthrough

/-- Isolation on a short run: what is done about the raw key of a lock through a namespace whose
name is longer changes nothing for the lock. -/
theorem namespaces_isolate_job :
    let job : Namespace := ⟨"job"⟩
    let jobs : Namespace := ⟨"jobs"⟩
    let lock : Locker := ⟨job, "a", .ofMillis 5⟩
    let store : Store := { status := .connected, sweepInterval := some (.ofMillis 2) }
    let es : List Event :=
      [.request (.lock lock), .request (.validate ⟨jobs, .ofMillis 9⟩ "a"),
        .request (.unlock ⟨jobs, "a", .ofMillis 5⟩), .pause (.jump (.ofMillis 3)),
        .request (.isLocked lock), .request (.unlock lock)]
    (∀ r, .request r ∈ es → ∃ q, r.ns? = some q ∧ ¬ job.Overlap q) ∧
      (store.attend es).1.filter (·.event.asks (ClientRequest.through job))
        = (store.attend (es.filter (·.spares (ClientRequest.through job)))).1.filter
            (·.event.asks (ClientRequest.through job)) := by
  intro job jobs lock store es
  have hapart : ∀ r, .request r ∈ es → ∃ q, r.ns? = some q ∧ ¬ job.Overlap q := by
    have hself : ¬ job.Overlap job := by decide +kernel
    have hother : ¬ job.Overlap jobs := by decide +kernel
    intro r hr
    simp only [es, List.mem_cons, Event.request.injEq, reduceCtorEq, List.not_mem_nil, or_false,
      false_or] at hr
    rcases hr with rfl | rfl | rfl | rfl | rfl
    · exact ⟨job, rfl, hself⟩
    · exact ⟨jobs, rfl, hother⟩
    · exact ⟨jobs, rfl, hother⟩
    · exact ⟨job, rfl, hself⟩
    · exact ⟨job, rfl, hself⟩
  exact ⟨hapart, namespaces_isolate.2.2 job store es hapart⟩

end Memory

end KeyLease
