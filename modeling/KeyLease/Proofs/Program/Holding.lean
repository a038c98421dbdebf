import KeyLease.Proofs.Clients.Session
import KeyLease.Proofs.Program.Errand
import KeyLease.Proofs.Redis.Serving

set_option autoImplicit false

/-!
# Locks that outlive their program

A command that holds a lock for a while gives it back before the program ends, as long as it is the
command's own doing. An interrupt is listened for only once the wait has been looked at, though; one
that comes earlier ends the program on the spot, and if the store has already carried out the
acquire, the lock stays behind.

To tell so, an errand is watched together with its key (`Watched`): whether the entry is there that
the errand's own acquire has created. `Placed` says where an errand can be while that is so, and
`held_at_end_iff` that the lock stays behind if and only if an interrupt comes while the entry is
there and nobody listens.
-/

namespace KeyLease

namespace CommandLine

/-! ## Stores -/

/-- A store that, while it is as it should be, carries out what it is asked about a key and answers
by that; `held` tells whether the key has an entry that has not expired. -/
structure Truthful {σ : Type} [LeaseStore σ] (key : String) (good : σ → Prop) (held : σ → Bool) :
    Prop where
  perform : ∀ {s}, good s → ∀ c, good (LeaseStore.perform c s).2
  pass : ∀ {s}, good s → ∀ d, good (LeaseStore.pass d s)
  /-- Whoever creates an entry is told so. -/
  created : ∀ {s}, good s → ∀ ttl, held s = false →
    held (LeaseStore.perform (.tryAcquire key ttl) s).2 = true →
      (LeaseStore.perform (.tryAcquire key ttl) s).1 = .ok true
  /-- A key that is given back has no entry. -/
  released : ∀ {s}, good s → key ≠ "" → held (LeaseStore.perform (.release key) s).2 = false

end CommandLine

/-- A store in memory is truthful while it is connected. -/
theorem Memory.Store.truthful (key : String) :
    CommandLine.Truthful key (fun s : Memory.Store => s.status = .connected)
      fun s => s.leases.isLive s.now key where
  perform := fun {s} hconn c => (s.perform_frame c).1.trans hconn
  pass := fun {s} hconn d => (later_sleepUntil s (s.now + d.nanos)).status.trans hconn
  created := by
    intro s hconn ttl hfree hheld
    rcases s.tryAcquire_cases key ttl with ⟨e, hrefused⟩ | ⟨-, hkey, hacc⟩
    · have hsame : (LeaseStore.perform (.tryAcquire key ttl) s).2 = s := congrArg Prod.snd hrefused
      rw [hsame, hfree] at hheld
      cases hheld
    · exact congrArg Prod.fst (tryAcquire_of_not_isLive hconn hkey hacc hfree)
  released := by
    intro s hconn hne
    have hrelease := congrArg Prod.snd (release_of_connected hconn hne)
    rw [show (LeaseStore.perform (.release key) s).2 = _ from hrelease]
    simp [Leases.isLive_erase]

/-- Whether the server of a Redis store has an entry of a key that has not expired. -/
def Redis.Store.holds (key : String) (s : Redis.Store) : Bool :=
  match s.network.server with
  | some server => server.keys.isLive key
  | none => false

theorem Redis.Store.Serves.holds_eq {s : Redis.Store} {keys : Redis.Keyspace} (h : s.Serves keys)
    (key : String) : s.holds key = keys.isLive key := by
  obtain ⟨server, pool, hs, rfl⟩ := h
  simp [holds, hs.listening]

/-- A Redis store is truthful while its server serves it. -/
theorem Redis.Store.truthful (key : String) :
    CommandLine.Truthful key (fun s : Redis.Store => ∃ keys, s.Serves keys) (holds key) where
  perform := by
    rintro s ⟨keys, hserves⟩ c
    exact ⟨_, (hserves.perform c).2⟩
  pass := fun hserves _ => hserves
  created := by
    rintro s ⟨keys, hserves⟩ ttl hfree hheld
    obtain ⟨hanswer, hafter⟩ := hserves.perform (.tryAcquire key ttl)
    have hfree' : keys.isLive key = false := (hserves.holds_eq key).symm.trans hfree
    have hheld' : (keys.answer (.tryAcquire key ttl)).2.isLive key = true :=
      (hafter.holds_eq key).symm.trans hheld
    refine hanswer.trans ?_
    cases hkey : ensureKey key with
    | error e => simp [Keyspace.answer, hkey, hfree'] at hheld'
    | ok _ =>
        cases httl : ensureTtl ttl with
        | error e => simp [Keyspace.answer, hkey, httl, hfree'] at hheld'
        | ok _ => simp [Keyspace.answer, hkey, httl, hfree']
  released := by
    rintro s ⟨keys, hserves⟩ hne
    obtain ⟨-, hafter⟩ := hserves.perform (.release key)
    refine (hafter.holds_eq key).trans ?_
    simp [Keyspace.answer, ensureKey_eq_ok_iff.mpr hne, Keyspace.drop, Keyspace.isLive,
      Leases.isLive_erase]

namespace CommandLine

/-! ## Watched errands -/

/-- An errand, and whether the entry of a key is there that the errand's own acquire has created. -/
structure Watched (σ : Type) where
  errand : Errand σ
  own : Bool := false

/-- Whether the store carries out the errand's own acquire of a key in this step. -/
def Errand.takes {σ : Type} (key : String) (s : Errand σ) (e : Event σ) : Bool :=
  match e, s.stage with
  | .carryOut, .asking (.tryAcquire stored _) _ => stored = key
  | _, _ => false

namespace Watched

variable {σ : Type} [LeaseStore σ] (key : String) (held : σ → Bool)

/-- One step. The errand's own entry is there from the acquire that creates it, for as long as the
key has an entry at every moment. -/
def step (w : Watched σ) (e : Event σ) : Watched σ where
  errand := w.errand.step e
  own := held (w.errand.step e).store &&
    (w.own || w.errand.takes key e && !held w.errand.store)

/-- One step after the other. -/
def run (w : Watched σ) (events : List (Event σ)) : Watched σ := events.foldl (step key held) w

variable {key held}

theorem own_step_of_not_takes {w : Watched σ} {e : Event σ} (h : w.own = false)
    (htakes : w.errand.takes key e = false) : (w.step key held e).own = false := by
  simp [step, h, htakes]

end Watched

/-! ## Where an errand can be -/

section

variable (key : String) (rest : Script (Except Failure String))

/-- A script that has come to its end. -/
def Ends : Prop := ∃ r, rest = .done r

/-- A script that gives a key back and ends. -/
def Releases : Prop := key ≠ "" ∧ ∃ next, rest = .call (.release key) next ∧ ∀ a, Ends (next a)

/-- A script that holds a key for a while, gives it back and ends. -/
def Holds : Prop := ∃ d next, rest = .hold d next ∧ Releases key next

/-- A script that acquires a key, and ends unless it is told that it has it. -/
def Acquires : Prop :=
  ∃ ttl next, rest = .call (.tryAcquire key ttl) next ∧ Holds key (next (.ok true)) ∧
    ∀ a, a ≠ .ok true → Ends (next a)

end

/-- What comes after a claim comes if the key was granted, and nothing else does. -/
theorem andThen_claim (stored : String) (c : String → Call) (no : String → Failure)
    (next : Script (Except Failure String)) :
    ∃ goOn, andThen (.claim (.ok stored) c no) next = .call (c stored) goOn ∧
      goOn (.ok true) = next ∧ ∀ a, a ≠ .ok true → Ends (goOn a) := by
  refine ⟨_, rfl, rfl, fun a ha => ?_⟩
  rcases a with e | (_ | _)
  · exact ⟨_, rfl⟩
  · exact ⟨_, rfl⟩
  · exact absurd rfl ha

/-- A command that holds a lock acquires its stored key, or ends at once if there is none. -/
theorem acquires_or_ends (config : Config) (backend rawKey : String) (ttlMs : Option Nat)
    (holdMs : Nat) (ns : Option String) :
    Acquires ((namespaceOr .locks ns).stored rawKey)
        ((Command.lock rawKey ttlMs (some holdMs) ns).script config backend) ∨
      Ends ((Command.lock rawKey ttlMs (some holdMs) ns).script config backend) := by
  by_cases hraw : rawKey = ""
  · subst hraw
    exact Or.inr ⟨_, rfl⟩
  · let l := Command.locker config rawKey ttlMs ns
    let stored := (namespaceOr .locks ns).stored rawKey
    have hkey : l.ns.key l.rawKey = .ok stored := Namespace.key_eq_stored hraw
    have hne : stored ≠ "" := fun hnil => hraw (Namespace.stored_eq_empty_iff.mp hnil)
    -- Giving the key back is the end, whatever the answer.
    obtain ⟨afterRelease, hrelease, hyes, hno⟩ := andThen_claim stored .release .notLocked
      (.done (.ok ("locked and released " ++ rawKey)))
    have hreleases : Releases stored
        (andThen l.unlock (.done (.ok ("locked and released " ++ rawKey)))) := by
      rw [Locker.unlock_eq, hkey]
      refine ⟨hne, afterRelease, hrelease, fun a => ?_⟩
      by_cases ha : a = .ok true
      · rw [ha, hyes]
        exact ⟨_, rfl⟩
      · exact hno a ha
    obtain ⟨afterAcquire, hacquire, hgranted, hdenied⟩ := andThen_claim stored
      (.tryAcquire · l.ttl) .alreadyLocked (.hold (.ofMillis holdMs)
        (andThen l.unlock (.done (.ok ("locked and released " ++ rawKey)))))
    refine Or.inl ⟨l.ttl, afterAcquire, ?_, ?_, hdenied⟩
    · rw [← hacquire, ← hkey, ← Locker.lock_eq]
      rfl
    · rw [hgranted]
      exact ⟨_, _, rfl, hreleases⟩

/-- Where an errand can be that holds a lock, by whether its own entry is there. Before it has
acquired its key, and once it has given it back, it is not. -/
def Placed (key : String) (own : Bool) : Stage → Prop
  | .opened | .connecting => False
  | .ready rest =>
      own = false ∧ (Acquires key rest ∨ Ends rest) ∨ Holds key rest ∨ Releases key rest
  | .asking c next => own = false ∧ Acquires key (.call c next) ∨ Releases key (.call c next)
  | .answered c a next =>
      Acquires key (.call c next) ∧ (own = true → a = .ok true) ∨
        Releases key (.call c next) ∧ own = false
  | .arming _ rest | .holding _ rest => Releases key rest
  | .closing _ | .disconnecting _ | .ended _ => own = false

namespace Placed

variable {σ : Type} {key : String} {own : Bool} {s : Errand σ}

/-- An entry that has gone leaves the errand where it is. -/
theorem mono {own' : Bool} {stage : Stage} (h : Placed key own stage)
    (himp : own' = true → own = true) : Placed key own' stage := by
  cases own' with
  | true => rwa [← himp rfl]
  | false =>
      cases stage with
      | ready rest => exact h.imp_left fun h => ⟨rfl, h.2⟩
      | asking c next => exact h.imp_left fun h => ⟨rfl, h.2⟩
      | answered c a next => exact h.imp (fun h => ⟨h.1, nofun⟩) fun h => ⟨h.1, rfl⟩
      | closing _ | disconnecting _ | ended _ => rfl
      | _ => exact h

theorem go (h : Placed key own s.stage) : Placed key own s.go.stage := by
  rcases s with ⟨command, script, store, stage, connected, listening, exchanges⟩
  cases stage with
  | opened => exact h
  | ready rest =>
      cases rest with
      | done r =>
          rcases h with ⟨hown, -⟩ | ⟨_, _, hrest, -⟩ | ⟨-, _, hrest, -⟩
          · exact hown
          · cases hrest
          · cases hrest
      | call c next =>
          rcases h with ⟨hown, hacquires | ⟨_, hrest⟩⟩ | ⟨_, _, hrest, -⟩ | hreleases
          · exact Or.inl ⟨hown, hacquires⟩
          · cases hrest
          · cases hrest
          · exact Or.inr hreleases
      | hold d rest =>
          rcases h with ⟨-, ⟨_, _, hrest, -⟩ | ⟨_, hrest⟩⟩ | ⟨_, _, hrest, hreleases⟩ |
            ⟨-, _, hrest, -⟩
          · cases hrest
          · cases hrest
          · cases hrest
            exact hreleases
          · cases hrest
  | answered c a next =>
      rcases h with ⟨⟨_, _, hcall, hholds, hends⟩, hyes⟩ | ⟨⟨-, _, hcall, hends⟩, hown⟩
      · cases hcall
        by_cases ha : a = .ok true
        · subst ha
          exact Or.inr (Or.inl hholds)
        · exact Or.inl ⟨Bool.eq_false_iff.mpr fun hown => ha (hyes hown), Or.inr (hends a ha)⟩
      · cases hcall
        exact Or.inl ⟨hown, Or.inr (hends a)⟩
  | holding left rest =>
      cases left with
      | zero => exact Or.inr (Or.inr h)
      | succ n => exact h
  | _ => exact h

theorem slip (h : Placed key own s.stage) : Placed key own s.slip.stage := by
  rcases s with ⟨command, script, store, stage, connected, listening, exchanges⟩
  cases stage with
  | arming left rest =>
      cases left with
      | zero => exact Or.inr (Or.inr h)
      | succ n => exact h
  | _ => exact h

theorem elapse {stage : Stage} (h : Placed key own stage) (d : Duration) :
    Placed key own (stage.elapse d) := by
  cases stage <;> exact h

/-- An interrupt that nobody hears ends the program, and one that is heard at most the wait. -/
theorem interrupt (h : Placed key own s.stage) (hself : s.command.handlesInterrupt = true)
    (hheard : own = true → s.listening = true) : Placed key own s.interrupt.stage := by
  rcases s with ⟨command, script, store, stage, connected, listening, exchanges⟩
  cases listening with
  | true =>
      have hhear : ¬ (Stage.busy stage = true ∧ ¬ command.handlesInterrupt = true) :=
        fun hdeaf => hdeaf.2 hself
      cases stage with
      | holding left rest =>
          simp only [Errand.interrupt, Errand.hear, if_neg hhear]
          exact Or.inr (Or.inr h)
      | ended e => exact h
      | _ =>
          simp only [Errand.interrupt, Errand.hear, if_neg hhear]
          exact h
  | false =>
      have hown : own = false := by
        cases own with
        | false => rfl
        | true => cases hheard rfl
      cases stage <;> exact hown

end Placed

namespace Watched

variable {σ : Type} [LeaseStore σ] {key : String} {good : σ → Prop} {held : σ → Bool}

/-- An errand that holds a lock on a store that is as it should be, and is where it can be. -/
structure Safe (key : String) (good : σ → Prop) (w : Watched σ) : Prop where
  self : w.errand.command.handlesInterrupt = true
  good : w.errand.stage.ending? = none → good w.errand.store
  placed : Placed key w.own w.errand.stage

/-- The store carries out what it has been asked for. -/
theorem placed_carryOut (hstore : Truthful key good held) {w : Watched σ} (h : w.Safe key good) :
    Placed key (w.step key held .carryOut).own (w.step key held .carryOut).errand.stage := by
  obtain ⟨-, hgood, hplaced⟩ := h
  rcases w with ⟨⟨command, script, store, stage, connected, listening, exchanges⟩, own⟩
  cases stage with
  | connecting => exact hplaced.elim
  | asking c next =>
      have hgood' : good store := hgood rfl
      rcases hplaced with ⟨hown, hacquires⟩ | hreleases
      · -- The errand's own acquire: if it creates the entry, the errand is told so.
        refine Or.inl ⟨hacquires, fun hown' => ?_⟩
        obtain ⟨ttl, _, hcall, -⟩ := hacquires
        cases hcall
        have hnow : own = false := hown
        simp only [step, Errand.step, Errand.carryOut, Errand.takes, hnow, decide_true,
          Bool.false_or, Bool.true_and, Bool.and_eq_true, Bool.not_eq_true'] at hown'
        exact hstore.created hgood' ttl hown'.2 hown'.1
      · refine Or.inr ⟨hreleases, ?_⟩
        obtain ⟨hne, _, hcall, -⟩ := hreleases
        cases hcall
        have hgone : held (LeaseStore.perform (.release key) store).2 = false :=
          hstore.released hgood' hne
        simp only [step, Errand.step, Errand.carryOut, hgone, Bool.false_and]
  | disconnecting e => exact own_step_of_not_takes hplaced rfl
  | _ => exact hplaced.mono fun hown => by simp_all [step, Errand.takes]

/-- The store stays as it should be until the errand is over. -/
theorem Safe.good_step (hstore : Truthful key good held) {w : Watched σ} (h : w.Safe key good)
    {e : Event σ} (hothers : ∀ f, e = .stir f → ∀ s, good s → good (f s))
    (hnone : (w.errand.step e).stage.ending? = none) : good (w.errand.step e).store := by
  have hopen : w.errand.stage.ending? = none := by
    cases hstage : w.errand.stage with
    | ended ending =>
        rw [Errand.step_of_ended hstage] at hnone
        cases hnone
    | _ => rfl
  have hgood := h.good hopen
  cases e with
  | go => rwa [w.errand.step_store (by simp)]
  | listen => rwa [w.errand.step_store (by simp)]
  | slip => rwa [w.errand.step_store (by simp)]
  | interrupt => rwa [w.errand.step_store (by simp)]
  | elapse d => exact hstore.pass hgood d
  | stir f => exact hothers f rfl _ hgood
  | carryOut =>
      obtain ⟨-, -, hplaced⟩ := h
      rcases w with ⟨⟨command, script, store, stage, connected, listening, exchanges⟩, own⟩
      cases stage with
      | connecting => exact hplaced.elim
      | asking c next => exact hstore.perform hgood c
      | disconnecting ending => cases hnone
      | _ => exact hgood

theorem Safe.step (hstore : Truthful key good held) {w : Watched σ} (h : w.Safe key good)
    {e : Event σ} (hothers : ∀ f, e = .stir f → ∀ s, good s → good (f s))
    (hheard : e = .interrupt → w.own = true → w.errand.listening = true) :
    (w.step key held e).Safe key good := by
  have hmono : w.errand.takes key e = false → (w.step key held e).own = true → w.own = true := by
    intro htakes hown
    cases hw : w.own with
    | true => rfl
    | false =>
        rw [own_step_of_not_takes hw htakes] at hown
        cases hown
  have hgood' := h.good_step hstore hothers
  obtain ⟨hself, hgood, hplaced⟩ := h
  refine ⟨?_, hgood', ?_⟩
  · exact (congrArg Command.handlesInterrupt (w.errand.step_frame e).1).trans hself
  · cases e with
    | go => exact hplaced.go.mono (hmono rfl)
    | carryOut => exact placed_carryOut hstore ⟨hself, hgood, hplaced⟩
    | listen =>
        have hstage : (w.step key held .listen).errand.stage = w.errand.stage := by
          simp only [Watched.step, Errand.step, Errand.listen]
          split <;> rfl
        rw [hstage]
        exact hplaced.mono (hmono rfl)
    | slip => exact hplaced.slip.mono (hmono rfl)
    | interrupt => exact (hplaced.interrupt hself (hheard rfl)).mono (hmono rfl)
    | elapse d => exact (hplaced.elapse d).mono (hmono rfl)
    | stir f => exact hplaced.mono (hmono rfl)

/-! ## Runs -/

/-- Some interrupt of these comes while the errand's own entry is there and nobody listens. -/
def Exposed (key : String) (held : σ → Bool) (w : Watched σ) (events : List (Event σ)) : Prop :=
  ∃ n, events[n]? = some .interrupt ∧ (w.run key held (events.take n)).own = true ∧
    (w.run key held (events.take n)).errand.listening = false

/-- At some moment of these the errand is over while its own entry is there. -/
def HeldAtEnd (key : String) (held : σ → Bool) (w : Watched σ) (events : List (Event σ)) : Prop :=
  ∃ n e, (w.run key held (events.take n)).errand.stage = .ended e ∧
    (w.run key held (events.take n)).own = true

theorem exposed_cons {w : Watched σ} {e : Event σ} {rest : List (Event σ)} :
    w.Exposed key held (e :: rest) ↔
      e = .interrupt ∧ w.own = true ∧ w.errand.listening = false ∨
        (w.step key held e).Exposed key held rest :=
  Log.exists_getElem?_cons

theorem Safe.run (hstore : Truthful key good held) {w : Watched σ} (h : w.Safe key good)
    {events : List (Event σ)} (hothers : ∀ f, .stir f ∈ events → ∀ s, good s → good (f s))
    (hheard : ¬ w.Exposed key held events) : (w.run key held events).Safe key good := by
  induction events generalizing w with
  | nil => exact h
  | cons e rest ih =>
      rw [exposed_cons, not_or] at hheard
      refine ih (h.step hstore (fun f hf => hothers f (by simp [hf])) fun he hown => ?_)
        (fun f hf => hothers f (List.mem_cons_of_mem e hf)) hheard.2
      exact Decidable.byContradiction fun hdeaf =>
        hheard.1 ⟨he, hown, Bool.eq_false_iff.mpr hdeaf⟩

/-- The errand's own entry is an entry. -/
theorem held_of_own {w : Watched σ} {events : List (Event σ)}
    (h : w.own = true → held w.errand.store = true) (hown : (w.run key held events).own = true) :
    held (w.run key held events).errand.store = true := by
  induction events generalizing w with
  | nil => exact h hown
  | cons e rest ih => exact ih (fun hnext => (Bool.and_eq_true_iff.mp hnext).1) hown

theorem run_take_succ (w : Watched σ) {events : List (Event σ)} {n : Nat} {e : Event σ}
    (h : events[n]? = some e) :
    w.run key held (events.take (n + 1)) = (w.run key held (events.take n)).step key held e := by
  unfold run
  rw [List.take_add_one, h, List.foldl_append]
  rfl

/-- An interrupt that nobody hears ends the program and leaves its entry. -/
theorem heldAtEnd_of_exposed {w : Watched σ} {events : List (Event σ)}
    (hfirst : w.own = true → held w.errand.store = true) (h : w.Exposed key held events) :
    w.HeldAtEnd key held events := by
  obtain ⟨n, hn, hown, hdeaf⟩ := h
  have hheld := held_of_own hfirst hown
  cases hstage : (w.run key held (events.take n)).errand.stage with
  | ended e => exact ⟨n, e, hstage, hown⟩
  | _ =>
      refine ⟨n + 1, .killed, ?_, ?_⟩ <;> rw [run_take_succ w hn]
      · simp [step, Errand.step, Errand.interrupt, hstage, hdeaf]
      · simp [step, Errand.step_store, hown, hheld]

theorem exposed_of_take {w : Watched σ} {events : List (Event σ)} {n : Nat}
    (h : w.Exposed key held (events.take n)) : w.Exposed key held events := by
  obtain ⟨m, hm, hown, hdeaf⟩ := h
  obtain ⟨hm', htake⟩ := Log.of_getElem?_take hm
  rw [htake] at hown hdeaf
  exact ⟨m, hm', hown, hdeaf⟩

/-- While no interrupt comes unheard, an errand that is over has given its key back. -/
theorem exposed_of_heldAtEnd (hstore : Truthful key good held) {w : Watched σ}
    (hsafe : w.Safe key good) {events : List (Event σ)}
    (hothers : ∀ f, .stir f ∈ events → ∀ s, good s → good (f s))
    (h : w.HeldAtEnd key held events) : w.Exposed key held events := by
  obtain ⟨n, e, hover, hown⟩ := h
  refine Classical.byContradiction fun hheard => ?_
  have hsafe' : (w.run key held (events.take n)).Safe key good :=
    hsafe.run hstore (fun f hf => hothers f (List.mem_of_mem_take hf))
      fun hexp => hheard (exposed_of_take hexp)
  have hplaced := hsafe'.placed
  rw [hover] at hplaced
  rw [show _ = false from hplaced] at hown
  cases hown

end Watched

/-! ## Before anyone listens -/

/-- The key has perhaps been acquired, and the wait has not been looked at yet. -/
def Stage.taking : Stage → Bool
  | .answered (.tryAcquire _ _) _ _ | .ready (.hold _ _) | .arming _ _ => true
  | _ => false

/-- Where an errand can be that holds a lock, before it has looked at its wait. -/
def Early (key : String) : Stage → Prop
  | .ready rest => Acquires key rest ∨ Ends rest ∨ Holds key rest
  | .asking c next | .answered c _ next => Acquires key (.call c next)
  | .opened | .connecting | .holding _ _ => False
  | _ => True

namespace Early

variable {σ : Type} {key : String} {s : Errand σ}

theorem go (h : Early key s.stage) (hdeaf : s.go.listening = false) : Early key s.go.stage := by
  rcases s with ⟨command, script, store, stage, connected, listening, exchanges⟩
  cases stage with
  | opened => exact h
  | ready rest =>
      cases rest with
      | done r => trivial
      | call c next =>
          rcases h with hacquires | ⟨_, hrest⟩ | ⟨_, _, hrest, -⟩
          · exact hacquires
          · cases hrest
          · cases hrest
      | hold d rest => trivial
  | answered c a next =>
      obtain ⟨_, _, hcall, hholds, hends⟩ := h
      cases hcall
      by_cases ha : a = .ok true
      · subst ha
        exact Or.inr (Or.inr hholds)
      · exact Or.inr (Or.inl (hends a ha))
  | arming left rest => cases hdeaf
  | holding left rest => exact h.elim
  | _ => exact h

theorem step [LeaseStore σ] (h : Early key s.stage) (hself : s.command.handlesInterrupt = true)
    {e : Event σ} (hslip : e ≠ .slip) (hbefore : s.listening = false)
    (hdeaf : (s.step e).listening = false) : Early key (s.step e).stage := by
  cases e with
  | go => exact h.go hdeaf
  | slip => exact absurd rfl hslip
  | carryOut =>
      rcases s with ⟨command, script, store, stage, connected, listening, exchanges⟩
      cases stage with
      | connecting => exact h.elim
      | disconnecting e => trivial
      | _ => exact h
  | listen =>
      have hstage : (s.step .listen).stage = s.stage := by
        simp only [Errand.step, Errand.listen]
        split <;> rfl
      rwa [hstage]
  | interrupt =>
      rcases s with ⟨command, script, store, stage, connected, listening, exchanges⟩
      cases hbefore
      cases stage <;> trivial
  | elapse d =>
      rcases s with ⟨command, script, store, stage, connected, listening, exchanges⟩
      cases stage <;> exact h
  | stir f => exact h

/-- If its own entry is there, the errand is where it takes its key. -/
theorem taking_of_own {stage : Stage} (h : Early key stage) (hplaced : Placed key true stage) :
    stage.taking = true := by
  cases stage with
  | ready rest =>
      rcases hplaced with ⟨hown, -⟩ | ⟨_, _, rfl, -⟩ | ⟨-, _, rfl, -⟩
      · cases hown
      · rfl
      · rcases h with ⟨_, _, hrest, -⟩ | ⟨_, hrest⟩ | ⟨_, _, hrest, -⟩ <;> cases hrest
  | asking c next =>
      obtain ⟨_, _, hcall, -⟩ := h
      cases hcall
      rcases hplaced with ⟨hown, -⟩ | ⟨-, _, hrest, -⟩
      · cases hown
      · cases hrest
  | answered c a next =>
      obtain ⟨_, _, hcall, -⟩ := h
      cases hcall
      rfl
  | arming left rest => rfl
  | holding left rest => exact h.elim
  | opened | connecting => exact h.elim
  | closing e | disconnecting e | ended e => cases hplaced

end Early

namespace Watched

variable {σ : Type} [LeaseStore σ] {key : String} {good : σ → Prop} {held : σ → Bool}

/-- An errand that is over, or is where it can be, and where it can be before anyone listens. -/
def Tame (key : String) (good : σ → Prop) (w : Watched σ) : Prop :=
  (∃ e, w.errand.stage = .ended e) ∨
    w.Safe key good ∧ (w.errand.listening = false → Early key w.errand.stage)

theorem Tame.step (hstore : Truthful key good held) {w : Watched σ} (h : w.Tame key good)
    {e : Event σ} (hothers : ∀ f, e = .stir f → ∀ s, good s → good (f s)) (hslip : e ≠ .slip) :
    (w.step key held e).Tame key good := by
  rcases h with ⟨ending, hover⟩ | ⟨hsafe, hearly⟩
  · exact Or.inl ⟨ending, Errand.step_of_ended hover e⟩
  by_cases hkilled : e = .interrupt ∧ w.errand.listening = false
  · obtain ⟨rfl, hdeaf⟩ := hkilled
    refine Or.inl ?_
    cases hstage : w.errand.stage <;>
      simp [Watched.step, Errand.step, Errand.interrupt, hstage, hdeaf]
  · refine Or.inr ⟨hsafe.step hstore hothers fun he _ => ?_, fun hdeaf => ?_⟩
    · exact Decidable.byContradiction fun hdeaf => hkilled ⟨he, Bool.eq_false_iff.mpr hdeaf⟩
    · have hbefore : w.errand.listening = false := by
        refine Bool.eq_false_iff.mpr fun hlistens => ?_
        have hafter := Errand.listening_step hlistens e
        rw [show (w.errand.step e).listening = false from hdeaf] at hafter
        cases hafter
      exact (hearly hbefore).step hsafe.self hslip hbefore hdeaf

theorem Tame.run (hstore : Truthful key good held) {w : Watched σ} (h : w.Tame key good)
    {events : List (Event σ)} (hothers : ∀ f, .stir f ∈ events → ∀ s, good s → good (f s))
    (hslip : .slip ∉ events) : (w.run key held events).Tame key good := by
  induction events generalizing w with
  | nil => exact h
  | cons e rest ih =>
      rw [List.mem_cons, not_or] at hslip
      refine ih (h.step hstore (fun f hf => hothers f (by simp [hf])) fun he => hslip.1 he.symm)
        (fun f hf => hothers f (List.mem_cons_of_mem e hf)) hslip.2

/-- The errand of a command whose store has been asked to connect. -/
def start (config : Config) (command : Command) (opened : σ) : Watched σ where
  errand := (Errand.ofStore config command opened).run [.go, .carryOut]

/-- A command that holds a lock begins where it can be. -/
theorem tame_start {config : Config} {rawKey : String} {ttlMs : Option Nat} {holdMs : Nat}
    {ns : Option String} {opened store : σ} (hconn : LeaseStore.connect opened = (.ok (), store))
    (hgood : good store) :
    (start config (.lock rawKey ttlMs (some holdMs) ns) opened).Safe
        ((namespaceOr .locks ns).stored rawKey) good ∧
      Early ((namespaceOr .locks ns).stored rawKey)
        (start config (.lock rawKey ttlMs (some holdMs) ns) opened).errand.stage := by
  have hscript := acquires_or_ends config (LeaseStore.backend opened) rawKey ttlMs holdMs ns
  have hstart : (start config (.lock rawKey ttlMs (some holdMs) ns) opened).errand
      = { Errand.ofStore config (.lock rawKey ttlMs (some holdMs) ns) opened with
          store
          stage := .ready (Command.script config (LeaseStore.backend opened)
            (.lock rawKey ttlMs (some holdMs) ns))
          connected := some (.ok ()) } := by
    simp [start, Errand.run, Errand.step, Errand.go, Errand.carryOut, Errand.ofStore, hconn]
  refine ⟨⟨?_, ?_, ?_⟩, ?_⟩
  · rw [hstart]
    rfl
  · rw [hstart]
    exact fun _ => hgood
  · rw [hstart]
    exact Or.inl ⟨rfl, hscript⟩
  · rw [hstart]
    exact hscript.imp_right Or.inl

end Watched

/-- A lock that is held for a while stays behind when its program has ended if and only if an
interrupt comes while the program's own entry is there and nobody listens. Unless a wait ends before
it is looked at, that can only be while the key is being taken: the answer to the acquire is on its
way, or the wait has not been looked at yet. -/
theorem held_at_end_iff {σ : Type} [LeaseStore σ] {config : Config} {rawKey : String}
    {ttlMs : Option Nat} {holdMs : Nat} {ns : Option String} {good : σ → Prop} {held : σ → Bool}
    {opened store : σ} {events : List (Event σ)}
    (hstore : Truthful ((namespaceOr .locks ns).stored rawKey) good held)
    (hconn : LeaseStore.connect opened = (.ok (), store)) (hgood : good store)
    (hothers : ∀ f, .stir f ∈ events → ∀ s, good s → good (f s)) :
    let key := (namespaceOr .locks ns).stored rawKey
    let w := Watched.start config (.lock rawKey ttlMs (some holdMs) ns) opened
    (w.HeldAtEnd key held events ↔ w.Exposed key held events) ∧
      (.slip ∉ events → ∀ n, (w.run key held (events.take n)).own = true →
        (w.run key held (events.take n)).errand.listening = false →
          (∃ e, (w.run key held (events.take n)).errand.stage = .ended e) ∨
            (w.run key held (events.take n)).errand.stage.taking = true) := by
  intro key w
  obtain ⟨hsafe, hearly⟩ : w.Safe key good ∧ Early key w.errand.stage :=
    Watched.tame_start hconn hgood
  refine ⟨⟨Watched.exposed_of_heldAtEnd hstore hsafe hothers,
    Watched.heldAtEnd_of_exposed nofun⟩, fun hslip n hown hdeaf => ?_⟩
  have htame : (w.run key held (events.take n)).Tame key good :=
    Watched.Tame.run hstore (Or.inr ⟨hsafe, fun _ => hearly⟩)
      (fun f hf => hothers f (List.mem_of_mem_take hf))
      fun hmem => hslip (List.mem_of_mem_take hmem)
  refine htame.imp_right fun ⟨hsafe', hearly'⟩ => ?_
  have hplaced := hsafe'.placed
  rw [hown] at hplaced
  exact (hearly' hdeaf).taking_of_own hplaced

/-- A store of a server that keeps no keys. -/
def freshStore : Redis.Store where
  address :=
    { scheme := "redis", user := none, password := none, host := .named "127.0.0.1", port := 6379
      database := none }
  endpoint := "redis://127.0.0.1:6379"
  opTimeout := .ofSeconds 3
  poolSize := 1
  network := { port := 6379, server := some {} }

theorem connect_freshStore :
    LeaseStore.connect freshStore = (.ok (), (LeaseStore.connect freshStore).2) := by
  rfl

/-- A lock that is taken, held until an interrupt comes, given back, and the store disconnected. -/
theorem held_at_end_iff_job :
    let config : Config := { uri := "redis://127.0.0.1:6379", defaultTtl := .ofSeconds 30 }
    let held := Redis.Store.holds "dlm:job"
    let w := Watched.start config (.lock "job" none (some 60000) none) freshStore
    let events : List (Event Redis.Store) :=
      [.go, .carryOut, .go, .go, .go, .interrupt, .go, .carryOut, .go, .go, .go, .carryOut]
    (w.run "dlm:job" held (events.take 5)).own = true ∧
      (w.run "dlm:job" held events).errand.stage.ending?.isSome = true ∧
      ¬ w.HeldAtEnd "dlm:job" held events := by
  intro config held w events
  have hgood : ∃ keys, (LeaseStore.connect freshStore).2.Serves keys :=
    ⟨_, Redis.Store.serves_of_connect rfl rfl connect_freshStore⟩
  have hothers : ∀ f, .stir f ∈ events → ∀ s : Redis.Store, (∃ keys, s.Serves keys) →
      ∃ keys, (f s).Serves keys := by
    intro f hf
    simp [events] at hf
  have hstore : Truthful ((namespaceOr .locks none).stored "job")
      (fun s : Redis.Store => ∃ keys, s.Serves keys) held := Redis.Store.truthful "dlm:job"
  have hiff : w.HeldAtEnd "dlm:job" held events ↔ w.Exposed "dlm:job" held events :=
    (held_at_end_iff hstore connect_freshStore hgood hothers).1
  have hlistens : (w.run "dlm:job" held (events.take 5)).errand.listening = true := by
    decide +kernel
  refine ⟨by decide +kernel, by decide +kernel, fun h => ?_⟩
  have hexposed := hiff.mp h
  simp only [events, Watched.exposed_cons, reduceCtorEq, false_and, false_or, true_and] at hexposed
  rcases hexposed with ⟨-, hdeaf⟩ | ⟨_, hn, -⟩
  · cases hlistens.symm.trans hdeaf
  · cases hn

/-- An interrupt that comes while the answer to the acquire is on its way ends the program, and the
lock stays behind: step by step, and in the run of a whole command line. -/
theorem interrupted_acquire_leaves_lock :
    let config : Config := { uri := "redis://127.0.0.1:6379", defaultTtl := .ofSeconds 30 }
    let w := Watched.start config (.lock "k" (some 90000) (some 60000) none) freshStore
    w.HeldAtEnd "dlm:k" (Redis.Store.holds "dlm:k") [.go, .carryOut, .interrupt] ∧
      (match run [] (fun _ => .error .notFound) freshStore.network
        ["--uri", "redis://127.0.0.1:6379", "lock", "k", "--hold-ms", "60000", "--ttl-ms", "90000"]
        (.inCall 0) with
      | (.killed, some (.redis store)) => store.holds "dlm:k"
      | _ => false) = true := by
  refine ⟨⟨3, .killed, rfl, ?_⟩, ?_⟩
  · decide +kernel
  · decide +kernel

end CommandLine

end KeyLease
