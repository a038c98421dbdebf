import KeyLease.Proofs.Config.Builders
import KeyLease.Proofs.Config.RoundTrip

set_option autoImplicit false

/-!
# What a document does to validity

A configuration is judged by its durations to the nanosecond, and a document holds their whole
milliseconds in 64 bits. A duration of which nothing is held (`Duration.Vanishes`) comes back as no
duration at all, and then the configuration that is read back is refused though the one that was
written was sound. Nothing else can go wrong: `validity_kept_iff`.
-/

namespace KeyLease

/-! ## Durations that vanish -/

namespace Duration

/-- A document holds nothing of the duration: it has no whole millisecond, or as many as 64 bits
count as none. -/
def Vanishes (d : Duration) : Prop := 0x10000000000000000 ∣ d.wholeMillis

instance (d : Duration) : Decidable d.Vanishes :=
  decidable_of_iff _ (Nat.dvd_iff_mod_eq_zero).symm

theorem cutToMillis_eq_zero_iff {d : Duration} : d.cutToMillis = .zero ↔ d.Vanishes := by
  simp only [cutToMillis, ofMillis, zero, Vanishes, wholeMillis, Duration.mk.injEq]
  omega

theorem cutToMillis_le (d : Duration) : d.cutToMillis ≤ d := by
  have hmod := Nat.mod_le (d.nanos / 1000000) 0x10000000000000000
  calc d.nanos / 1000000 % 0x10000000000000000 * 1000000
      ≤ d.nanos / 1000000 * 1000000 := Nat.mul_le_mul_right _ hmod
    _ ≤ d.nanos := Nat.div_mul_le_self _ _

end Duration

namespace Config

variable {c : Config}

/-! ## The judgement of what comes back -/

/-- A sound configuration has a time to live within the bounds. -/
theorem defaultTtl_le_of_check (h : c.check = .ok ()) : c.defaultTtl ≤ maxTtl := by
  obtain ⟨kind, hkind⟩ := exists_backendKind_of_check h
  rw [check, hkind] at h
  refine Nat.le_of_not_lt fun hlong => ?_
  have hrefused : c.checkDurations = .error (.configInvalid (.defaultTtl c.defaultTtl)) :=
    if_pos (Or.inr hlong)
  cases h.symm.trans hrefused

/-- Of the durations that have vanished the first one is named. -/
theorem checkDurations_cutToMillis (httl : c.defaultTtl ≤ maxTtl) :
    (c.mapDurations .cutToMillis).checkDurations =
      if c.defaultTtl.Vanishes then .error (.configInvalid (.defaultTtl .zero))
      else if c.opTimeout.Vanishes then .error (.configInvalid .zeroOpTimeout)
      else if c.sweepInterval.any (·.Vanishes) then .error (.configInvalid .zeroSweepInterval)
      else .ok () := by
  have hshort : ¬ maxTtl < c.defaultTtl.cutToMillis :=
    Nat.not_lt.mpr (Nat.le_trans c.defaultTtl.cutToMillis_le httl)
  have hsweep : c.sweepInterval.map Duration.cutToMillis = some Duration.zero
      ↔ c.sweepInterval.any (·.Vanishes) = true := by
    cases c.sweepInterval with
    | none => simp
    | some d => simp [Duration.cutToMillis_eq_zero_iff]
  simp only [checkDurations, mapDurations, hshort, or_false, hsweep,
    Duration.cutToMillis_eq_zero_iff]
  by_cases hvanishes : c.defaultTtl.Vanishes
  · rw [if_pos hvanishes, if_pos hvanishes, Duration.cutToMillis_eq_zero_iff.mpr hvanishes]
  · rw [if_neg hvanishes, if_neg hvanishes]

/-- **A sound configuration stays sound in a document exactly if none of its durations vanishes
there.** It can always be read back, and selects the same backend. If a duration has vanished, what
is read back is refused, and the first such duration is named, be it the time to live, the limit of
a command or the interval of the sweep. -/
theorem validity_kept_iff (h : c.check = .ok ()) :
    ∃ c', read c.write = .ok c' ∧ c'.backendKind = c.backendKind ∧
      (c'.check = .ok () ↔ ∀ d ∈ c.durations, ¬ d.Vanishes) ∧
      c'.check =
        if c.defaultTtl.Vanishes then .error (.configInvalid (.defaultTtl .zero))
        else if c.opTimeout.Vanishes then .error (.configInvalid .zeroOpTimeout)
        else if c.sweepInterval.any (·.Vanishes) then .error (.configInvalid .zeroSweepInterval)
        else .ok () := by
  obtain ⟨kind, hkind⟩ := exists_backendKind_of_check h
  have hsame : (c.mapDurations .cutToMillis).backendKind = c.backendKind := rfl
  have hcheck : (c.mapDurations .cutToMillis).check
      = (c.mapDurations .cutToMillis).checkDurations := by
    rw [check, hsame, hkind]
  rw [checkDurations_cutToMillis (defaultTtl_le_of_check h)] at hcheck
  refine ⟨_, c.read_write, hsame, ?_, hcheck⟩
  rw [hcheck]
  simp only [durations, List.cons_append, List.nil_append, List.forall_mem_cons, Option.mem_toList]
  split_ifs with httl hlimit hsweep
  · simp [httl]
  · simp [hlimit]
  · obtain ⟨d, hd, hvanishes⟩ := (Option.any_eq_true _ _).mp hsweep
    exact iff_of_false (by simp) fun hall => hall.2.2 d hd (of_decide_eq_true hvanishes)
  · refine iff_of_true rfl ⟨httl, hlimit, fun d hd hvanishes => hsweep ?_⟩
    exact (Option.any_eq_true _ _).mpr ⟨d, hd, decide_eq_true hvanishes⟩

/-- A time to live of a millisecond and a half and a sweep every quarter of a second. -/
theorem validity_kept_iff_cache :
    let c : Config := { uri := "redis://localhost:6379/0", defaultTtl := ⟨1500000⟩,
                        sweepInterval := some (.ofMillis 250) }
    c.check = .ok () ∧ ∃ c', read c.write = .ok c' ∧ c'.backendKind = c.backendKind ∧
      (c'.check = .ok () ↔ ∀ d ∈ c.durations, ¬ d.Vanishes) ∧ c'.check = .ok () := by
  intro c
  have hsound : c.check = .ok () := by decide +kernel
  obtain ⟨c', hread, hkind, hiff, -⟩ := validity_kept_iff hsound
  exact ⟨hsound, c', hread, hkind, hiff, hiff.mpr (by decide +kernel)⟩

/-- Half a millisecond for a command is allowed, and is no time at all in a document: what is read
back is refused. -/
theorem short_limit_is_lost :
    let c : Config := { uri := "memory://", defaultTtl := .ofMillis 30000, opTimeout := ⟨500000⟩ }
    c.check = .ok () ∧ read c.write = .ok { c with opTimeout := .zero } ∧
      { c with opTimeout := .zero }.check = .error (.configInvalid .zeroOpTimeout) := by
  intro c
  have hcut : c.mapDurations .cutToMillis = { c with opTimeout := .zero } := by decide +kernel
  exact ⟨by decide +kernel, hcut ▸ c.read_write, by decide +kernel⟩

end Config

end KeyLease
