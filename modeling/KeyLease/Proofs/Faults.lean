import KeyLease.Proofs.Config.Builders
import KeyLease.Proofs.Refusals

set_option autoImplicit false

/-!
# Faults of a time to live

A time to live is judged in two places: in the configuration that gives it, and in every store that
is asked for it. Both draw the same bounds (`Config.SoundOtherwise.check_iff`), and what the second
finds is told as a fault of the configuration. `Call.JudgedByBounds` says of an answer that it tells
of such a fault exactly if there is one, and of no other: neither that the clock cannot name the end
of a lease nor that a server cannot count its milliseconds (`Failure.Overflows`).
-/

namespace KeyLease

/-! ## Configurations -/

namespace Config

variable {c : Config}

/-- With some time to live the configuration is sound, so nothing else is wrong with it. -/
def SoundOtherwise (c : Config) : Prop := ∃ ttl, { c with defaultTtl := ttl }.check = .ok ()

/-- The bounds of the time to live in a configuration are those of `ensureTtl`. -/
theorem checkDurations_eq_ok_iff :
    c.checkDurations = .ok () ↔
      ensureTtl c.defaultTtl = .ok () ∧ c.opTimeout ≠ .zero ∧ c.sweepInterval ≠ some .zero := by
  unfold checkDurations ensureTtl
  by_cases hzero : c.defaultTtl = .zero
  · simp [hzero]
  · by_cases hlong : maxTtl < c.defaultTtl
    · simp [hzero, hlong]
    · by_cases hlimit : c.opTimeout = .zero
      · simp [hzero, hlong, hlimit]
      · simp [hzero, hlong, hlimit]

theorem check_eq_ok_iff :
    c.check = .ok () ↔ (∃ kind, c.backendKind = .ok kind) ∧ c.checkDurations = .ok () := by
  rw [check]
  cases c.backendKind with
  | error e => simp
  | ok kind => simp

/-- If nothing else is wrong, a configuration is sound exactly with the times to live that every
store accepts. -/
theorem SoundOtherwise.check_iff (h : c.SoundOtherwise) (ttl : Duration) :
    { c with defaultTtl := ttl }.check = .ok () ↔ ensureTtl ttl = .ok () := by
  obtain ⟨ttl', hsound⟩ := h
  obtain ⟨hkind, hdurations⟩ := check_eq_ok_iff.mp hsound
  obtain ⟨-, hlimit, hsweep⟩ := checkDurations_eq_ok_iff.mp hdurations
  rw [check_eq_ok_iff, checkDurations_eq_ok_iff]
  exact ⟨fun hok => hok.2.1, fun httl => ⟨hkind, httl, hlimit, hsweep⟩⟩

theorem ensureTtl_of_check (h : c.check = .ok ()) : ensureTtl c.defaultTtl = .ok () :=
  (checkDurations_eq_ok_iff.mp (check_eq_ok_iff.mp h).2).1

end Config

/-! ## Faults -/

theorem ensureTtl_eq_error_iff {ttl : Duration} {e : Failure} :
    ensureTtl ttl = .error e ↔
      ttl = .zero ∧ e = .configInvalid .zeroTtl ∨
        maxTtl < ttl ∧ e = .configInvalid (.ttlTooLong ttl) := by
  unfold ensureTtl
  by_cases hzero : ttl = .zero
  · have hshort : ¬ maxTtl < .zero := by decide
    simp [hzero, hshort, eq_comm]
  · by_cases hlong : maxTtl < ttl
    · simp [hzero, hlong, eq_comm]
    · simp [hzero, hlong]

/-- The failure says of a time to live that it cannot be held, though it may be within the bounds:
the clock cannot name its end, or a server cannot count it. -/
def Failure.Overflows (e : Failure) : Prop :=
  ∃ ttl, e = .configInvalid (.ttlBeyondClock ttl) ∨ e = .configInvalid (.ttlBeyondMillis ttl)

theorem Failure.Overflows.exists_fault {e : Failure} (h : e.Overflows) :
    ∃ fault, e = .configInvalid fault := by
  obtain ⟨ttl, rfl | rfl⟩ := h
  · exact ⟨_, rfl⟩
  · exact ⟨_, rfl⟩

/-- What `ensureTtl` finds is no such failure. -/
theorem not_overflows_of_ensureTtl {ttl : Duration} {e : Failure} (h : ensureTtl ttl = .error e) :
    ¬ e.Overflows := by
  rintro ⟨ttl', rfl | rfl⟩ <;> simp [ensureTtl_eq_error_iff] at h

/-- The failure is one with which a store refuses a call before it does anything: the key, the
connection or the time to live is found wrong. -/
def Failure.IsRefusal (e : Failure) : Prop :=
  e = .keyEmpty ∨ e = .notConnected ∨ ∃ ttl, ensureTtl ttl = .error e

theorem Failure.IsRefusal.not_overflows {e : Failure} (h : e.IsRefusal) : ¬ e.Overflows := by
  rcases h with rfl | rfl | ⟨ttl, httl⟩
  · exact fun hover => nomatch hover.exists_fault
  · exact fun hover => nomatch hover.exists_fault
  · exact not_overflows_of_ensureTtl httl

namespace Call

/-- The call asks for a time to live out of bounds, with this fault. Its key is not empty: an empty
key is found first. -/
def OutOfBounds : Call → ConfigFault → Prop
  | tryAcquire key ttl, fault => key ≠ "" ∧ ensureTtl ttl = .error (.configInvalid fault)
  | release _, _ | «exists» _, _ | check _, _ => False

/-- The answer blames the configuration exactly if the call is out of bounds, and for that. -/
def JudgedByBounds (c : Call) (a : Answer) : Prop :=
  ∀ fault, a = .error (.configInvalid fault) ↔ c.OutOfBounds fault

theorem OutOfBounds.exists_ttl {c : Call} {fault : ConfigFault} (h : c.OutOfBounds fault) :
    ∃ ttl, ensureTtl ttl = .error (.configInvalid fault) := by
  cases c with
  | tryAcquire key ttl => exact ⟨ttl, h.2⟩
  | release key => exact h.elim
  | «exists» key => exact h.elim
  | check probe => exact h.elim

/-- How an attempt to acquire is to be judged: the key first, then the time to live, and then the
configuration is no longer to blame. -/
theorem judged_tryAcquire {key : String} {ttl : Duration} {a : Answer}
    (hempty : key = "" → a = .error .keyEmpty)
    (hout : key ≠ "" → ∀ e, ensureTtl ttl = .error e → a = .error e)
    (hin : key ≠ "" → ensureTtl ttl = .ok () → ∀ fault, a ≠ .error (.configInvalid fault)) :
    (tryAcquire key ttl).JudgedByBounds a := by
  intro fault
  rw [OutOfBounds]
  by_cases hkey : key = ""
  · simp [hempty hkey, hkey]
  · cases httl : ensureTtl ttl with
    | error e => simp [hout hkey e httl, hkey]
    | ok _ => simp [hin hkey httl fault]

end Call

end KeyLease
