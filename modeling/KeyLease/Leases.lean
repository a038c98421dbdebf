set_option autoImplicit false

/-!
# Leases

A table of leases: keys with the instants at which they expire, every key at most once. A lease is
live while its expiry lies after the present. Expired leases stay in the table until someone
overwrites, releases or sweeps them, so what is in the table and what is held are different things.

The view of a table is `expiry?`. Each operation has one equation on it, and `isLive_sweep` says
that a sweep changes nothing that can be told from then on.
-/

namespace KeyLease

/-- Keys with their expiries, every key at most once. -/
structure Leases where
  toList : List (String × Nat) := []
  distinct : (toList.map (·.1)).Nodup := by exact List.nodup_nil
  deriving DecidableEq, Repr

namespace Leases

/-- The expiry of a key. -/
def expiry? (ls : Leases) (key : String) : Option Nat := ls.toList.lookup key

/-- How many keys there are, live or not. -/
def size (ls : Leases) : Nat := ls.toList.length

/-- The leases that pass a test. -/
def filter (ls : Leases) (p : String × Nat → Bool) : Leases where
  toList := ls.toList.filter p
  distinct := List.Nodup.sublist (List.filter_sublist.map _) ls.distinct

/-- The leases without that of a key. -/
def erase (ls : Leases) (key : String) : Leases := ls.filter (·.1 ≠ key)

/-- The leases with that of a key set. -/
def insert (ls : Leases) (key : String) (expiry : Nat) : Leases where
  toList := (key, expiry) :: (ls.erase key).toList
  distinct := by
    refine List.nodup_cons.mpr ⟨?_, (ls.erase key).distinct⟩
    intro hmem
    obtain ⟨l, hl, hkey⟩ := List.mem_map.mp hmem
    have hne := (List.mem_filter.mp hl).2
    simp [hkey] at hne

/-- Whether the lease of a key is live. -/
def isLive (ls : Leases) (now : Nat) (key : String) : Bool :=
  match ls.expiry? key with
  | some expiry => now < expiry
  | none => false

/-- Sets the lease of a key unless a live one is there; an expired one is taken over. -/
def acquire (ls : Leases) (now : Nat) (key : String) (expiry : Nat) : Bool × Leases :=
  if ls.isLive now key then (false, ls) else (true, ls.insert key expiry)

/-- Removes the lease of a key, live or not; tells whether it was live. -/
def release (ls : Leases) (now : Nat) (key : String) : Bool × Leases :=
  (ls.isLive now key, ls.erase key)

/-- The leases that are live. -/
def sweep (ls : Leases) (now : Nat) : Leases := ls.filter fun l => now < l.2

/-! ## The expiry of a key -/

/-- In a list that has every key once, looking a key up finds its one pair. -/
theorem lookup_eq_some_iff_mem {α : Type} {l : List (String × α)} (h : (l.map (·.1)).Nodup)
    {key : String} {a : α} : l.lookup key = some a ↔ (key, a) ∈ l := by
  induction l with
  | nil => simp
  | cons e es ih =>
      obtain ⟨hnot, htail⟩ := List.nodup_cons.mp h
      rw [List.lookup_cons, List.mem_cons]
      by_cases he : key = e.1
      · have hout : (key, a) ∉ es := fun hm => hnot (List.mem_map.mpr ⟨_, hm, he⟩)
        simp only [he, beq_self_eq_true, Option.some.injEq]
        constructor
        · rintro rfl
          exact Or.inl rfl
        · rintro (heq | hm)
          · rw [← heq]
          · exact absurd (he ▸ hm) hout
      · have hbeq : (key == e.1) = false := by simpa using he
        have hne : (key, a) ≠ e := fun heq => he (by rw [← heq])
        simp only [hbeq, hne, false_or]
        exact ih htail

theorem expiry?_eq_some_iff {ls : Leases} {key : String} {expiry : Nat} :
    ls.expiry? key = some expiry ↔ (key, expiry) ∈ ls.toList :=
  lookup_eq_some_iff_mem ls.distinct

@[simp] theorem expiry?_empty (key : String) : ({} : Leases).expiry? key = none := rfl

/-- Keeping the leases that pass a test keeps an expiry exactly if its lease passes. -/
theorem expiry?_filter (ls : Leases) (p : String × Nat → Bool) (key : String) :
    (ls.filter p).expiry? key = (ls.expiry? key).filter fun expiry => p (key, expiry) := by
  apply Option.ext
  intro expiry
  rw [expiry?_eq_some_iff, Option.filter_eq_some_iff, expiry?_eq_some_iff]
  exact List.mem_filter

/-- Erasing a key leaves the others as they are. -/
theorem expiry?_erase (ls : Leases) (key other : String) :
    (ls.erase key).expiry? other = if other = key then none else ls.expiry? other := by
  rw [erase, expiry?_filter]
  by_cases h : other = key
  · cases ls.expiry? other <;> simp [h]
  · cases ls.expiry? other <;> simp [h]

/-- Setting a key leaves the others as they are. -/
theorem expiry?_insert (ls : Leases) (key other : String) (expiry : Nat) :
    (ls.insert key expiry).expiry? other
      = if other = key then some expiry else ls.expiry? other := by
  have herase := expiry?_erase ls key other
  by_cases h : other = key
  · simp [expiry?, insert, h]
  · have hbeq : (other == key) = false := by simpa using h
    rw [if_neg h] at herase ⊢
    rw [← herase]
    simp [expiry?, insert, List.lookup_cons, hbeq]

/-- A sweep takes the expired leases and no others. -/
theorem expiry?_sweep (ls : Leases) (now : Nat) (key : String) :
    (ls.sweep now).expiry? key = (ls.expiry? key).filter (now < ·) :=
  expiry?_filter ls _ key

/-! ## What is held -/

theorem isLive_iff {ls : Leases} {now : Nat} {key : String} :
    ls.isLive now key = true ↔ ∃ expiry, ls.expiry? key = some expiry ∧ now < expiry := by
  unfold isLive
  cases ls.expiry? key with
  | none => simp
  | some expiry => simp

/-- After a key is set, it is held until its expiry, and the others are held as before. -/
theorem isLive_insert (ls : Leases) (now : Nat) (key other : String) (expiry : Nat) :
    (ls.insert key expiry).isLive now other
      = if other = key then decide (now < expiry) else ls.isLive now other := by
  simp only [isLive, expiry?_insert]
  by_cases h : other = key <;> simp [h]

/-- After a key is erased, it is not held, and the others are held as before. -/
theorem isLive_erase (ls : Leases) (now : Nat) (key other : String) :
    (ls.erase key).isLive now other = if other = key then false else ls.isLive now other := by
  simp only [isLive, expiry?_erase]
  by_cases h : other = key <;> simp [h]

/-- No sweep changes what is held from then on. -/
theorem isLive_sweep (ls : Leases) {swept now : Nat} (hle : swept ≤ now) (key : String) :
    (ls.sweep swept).isLive now key = ls.isLive now key := by
  simp only [isLive, expiry?_sweep]
  cases ls.expiry? key with
  | none => rfl
  | some expiry =>
      by_cases hlt : swept < expiry
      · simp [Option.filter, hlt]
      · have hnot : ¬ now < expiry := by omega
        simp [Option.filter, hlt, hnot]

end Leases

end KeyLease
