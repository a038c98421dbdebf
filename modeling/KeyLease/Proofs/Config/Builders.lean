import Mathlib.Data.List.Basic
import KeyLease.Backend
import KeyLease.Proofs.Config.Scheme

set_option autoImplicit false

/-!
# Builders of stores

A store is built from a configuration by the builder of its kind, or by the one that chooses the
kind from the URI. The first two judge the whole configuration before they look at the kind, the
third looks at the kind first. All the same they answer one failure, since the judgement itself
begins with the kind (`builders_agree`).
-/

namespace KeyLease

namespace Config

variable {c : Config} {e : Failure}

/-- A URI that selects no backend is the first thing that is found wrong. -/
theorem check_of_backendKind_error (h : c.backendKind = .error e) : c.check = .error e := by
  rw [check, h]

/-- A configuration that is sound selects a backend. -/
theorem exists_backendKind_of_check (h : c.check = .ok ()) : ∃ kind, c.backendKind = .ok kind := by
  cases hkind : c.backendKind with
  | ok kind => exact ⟨kind, rfl⟩
  | error e => cases h.symm.trans (check_of_backendKind_error hkind)

/-- No backend is selected by a URI that starts with none of the schemes. -/
theorem exists_backendKind_error_iff :
    (∃ e, c.backendKind = .error e) ↔
      ¬ c.StartsWith "memory://" ∧ ¬ c.StartsWith "redis://" ∧ ¬ c.StartsWith "rediss://" := by
  rw [← backendKind_eq_memory_iff, ← not_or, ← backendKind_eq_redis_iff]
  cases c.backendKind with
  | error e => simp
  | ok kind => cases kind <;> simp

end Config

namespace Memory.Store

variable {c : Config} {e : Failure}

/-- The memory store refuses a configuration because its URI is one of another store. -/
def Refuses (c : Config) : Prop := ofConfig c = .error (.configInvalid (.notMemory c.uri))

theorem ofConfig_of_check_error (h : c.check = .error e) : ofConfig c = .error e := by
  rw [ofConfig, h]

theorem ofConfig_of_memory (hcheck : c.check = .ok ()) (hkind : c.backendKind = .ok .memory) :
    ofConfig c = .ok { sweepInterval := c.sweepInterval } := by
  rw [ofConfig, hcheck, hkind]

theorem refuses_of_redis (hcheck : c.check = .ok ()) (hkind : c.backendKind = .ok .redis) :
    Refuses c := by
  rw [Refuses, ofConfig, hcheck, hkind]

end Memory.Store

namespace Redis.Store

variable {c : Config} {e : Failure}

/-- The Redis store refuses a configuration because its URI is one of another store. -/
def Refuses (c : Config) (network : Network) : Prop :=
  ofConfig c network = .error (.configInvalid (.notRedis c.uri))

theorem ofConfig_of_check_error (network : Network) (h : c.check = .error e) :
    ofConfig c network = .error e := by
  rw [ofConfig, h]

theorem refuses_of_memory (network : Network) (hcheck : c.check = .ok ())
    (hkind : c.backendKind = .ok .memory) : Refuses c network := by
  rw [Refuses, ofConfig, hcheck, hkind]

/-- What else the Redis store can find wrong is the address. -/
theorem not_refuses_of_redis (network : Network) (hcheck : c.check = .ok ())
    (hkind : c.backendKind = .ok .redis) : ¬ Refuses c network := by
  rw [Refuses, ofConfig, hcheck, hkind]
  cases Address.read c.uri <;> simp

end Redis.Store

namespace Backend

variable {c : Config} {e : Failure}

/-- The builder that chooses finds the same wrong as the one that it chooses. -/
theorem ofConfig_of_check_error (n : Nat) (network : Redis.Network) (h : c.check = .error e) :
    ofConfig c n network = .error e := by
  unfold ofConfig
  cases hkind : c.backendKind with
  | error f =>
      cases h.symm.trans (Config.check_of_backendKind_error hkind)
      rfl
  | ok kind =>
      cases kind with
      | memory => simp only [Memory.Store.ofConfig_of_check_error h, Except.map]
      | redis => simp only [Redis.Store.ofConfig_of_check_error network h, Except.map]

theorem ofConfig_of_memory (n : Nat) (network : Redis.Network)
    (hkind : c.backendKind = .ok .memory) :
    ofConfig c n network = (Memory.Store.ofConfig c).map .memory := by
  rw [ofConfig, hkind]

theorem ofConfig_of_redis (n : Nat) (network : Redis.Network)
    (hkind : c.backendKind = .ok .redis) :
    ofConfig c n network
      = (Redis.Store.ofConfig c network).map fun s => .redis (s.withPoolSize n) := by
  rw [ofConfig, hkind]

end Backend

/-- **All builders judge a configuration alike.** The backend is selected by what the URI starts
with, and there is none for any other URI. A configuration that is found wrong is refused by every
builder with the failure of that judgement. Of one that is sound, exactly one of the two stores
refuses the scheme, and the builder that chooses gives what the other one gives, be it a store or
what is wrong with the address; for a memory URI it always gives a store. -/
theorem builders_agree (c : Config) (network : Redis.Network) :
    ((c.backendKind = .ok .memory ↔ c.StartsWith "memory://") ∧
      (c.backendKind = .ok .redis ↔ c.StartsWith "redis://" ∨ c.StartsWith "rediss://") ∧
      ((∃ e, c.backendKind = .error e) ↔
        ¬ c.StartsWith "memory://" ∧ ¬ c.StartsWith "redis://" ∧ ¬ c.StartsWith "rediss://")) ∧
    (∀ e, c.check = .error e →
      Memory.Store.ofConfig c = .error e ∧ Redis.Store.ofConfig c network = .error e ∧
        ∀ n, Backend.ofConfig c n network = .error e) ∧
    (c.check = .ok () →
      (Memory.Store.Refuses c ↔ ¬ Redis.Store.Refuses c network) ∧
      (Redis.Store.Refuses c network →
        ∀ n, Backend.ofConfig c n network = (Memory.Store.ofConfig c).map .memory) ∧
      (Memory.Store.Refuses c →
        ∀ n, Backend.ofConfig c n network
          = (Redis.Store.ofConfig c network).map fun s => .redis (s.withPoolSize n)) ∧
      (c.StartsWith "memory://" →
        ∃ s, Memory.Store.ofConfig c = .ok s ∧
          ∀ n, Backend.ofConfig c n network = .ok (.memory s))) := by
  refine ⟨⟨Config.backendKind_eq_memory_iff, Config.backendKind_eq_redis_iff,
    Config.exists_backendKind_error_iff⟩, ?_, ?_⟩
  · intro e h
    exact ⟨Memory.Store.ofConfig_of_check_error h, Redis.Store.ofConfig_of_check_error network h,
      fun n => Backend.ofConfig_of_check_error n network h⟩
  · intro hcheck
    obtain ⟨kind, hkind⟩ := Config.exists_backendKind_of_check hcheck
    cases kind with
    | memory =>
        have hbuilt := Memory.Store.ofConfig_of_memory hcheck hkind
        have hserves : ¬ Memory.Store.Refuses c := by simp [Memory.Store.Refuses, hbuilt]
        have hrefused := Redis.Store.refuses_of_memory network hcheck hkind
        refine ⟨by simp [hserves, hrefused], ?_, fun h => absurd h hserves, ?_⟩
        · intro _ n
          exact Backend.ofConfig_of_memory n network hkind
        · intro _
          exact ⟨_, hbuilt, fun n => by rw [Backend.ofConfig_of_memory n network hkind, hbuilt]; rfl⟩
    | redis =>
        have hserves := Redis.Store.not_refuses_of_redis network hcheck hkind
        have hrefused := Memory.Store.refuses_of_redis hcheck hkind
        refine ⟨by simp [hserves, hrefused], fun h => absurd h hserves, ?_, ?_⟩
        · intro _ n
          exact Backend.ofConfig_of_redis n network hkind
        · intro hmemory
          cases hkind.symm.trans (Config.backendKind_eq_memory_iff.mpr hmemory)

/-- A port that is no number: it is found only where nothing else is wrong. -/
theorem builders_agree_bad_port :
    let c : Config := { uri := "redis://h:x", defaultTtl := .ofSeconds 30 }
    (∀ n, Backend.ofConfig { c with defaultTtl := .zero } n {}
      = .error (.configInvalid (.defaultTtl .zero))) ∧
    c.check = .ok () ∧ Memory.Store.Refuses c ∧
    (∀ n, Backend.ofConfig c n {} = .error (.configInvalid (.address .port))) ∧
    ∃ s, ∀ n, Backend.ofConfig { c with uri := "memory://" } n {} = .ok (.memory s) := by
  intro c
  have hcheck : c.check = .ok () := by decide +kernel
  have hzero : ({ c with defaultTtl := .zero } : Config).check
      = .error (.configInvalid (.defaultTtl .zero)) := by decide +kernel
  have hmemory : ({ c with uri := "memory://" } : Config).check = .ok () := by decide +kernel
  obtain ⟨-, -, hsound⟩ := builders_agree c {}
  obtain ⟨hone, -, hredis, -⟩ := hsound hcheck
  have hport : Redis.Store.ofConfig c {} = .error (.configInvalid (.address .port)) := by
    have hkind : c.backendKind = .ok .redis := by decide +kernel
    have hread : Redis.Address.read c.uri = .error .port := by decide +kernel
    rw [Redis.Store.ofConfig, hcheck, hkind]
    simp only [hread]
  have hserves : ¬ Redis.Store.Refuses c {} := by simp [Redis.Store.Refuses, hport]
  have hrefuses := hone.mpr hserves
  refine ⟨((builders_agree _ {}).2.1 _ hzero).2.2, hcheck, hrefuses, fun n => ?_, ?_⟩
  · rw [hredis hrefuses n, hport]
    rfl
  · obtain ⟨s, -, hbuilt⟩ := ((builders_agree _ {}).2.2 hmemory).2.2.2 (List.prefix_refl _)
    exact ⟨s, hbuilt⟩

end KeyLease
