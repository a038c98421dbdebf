import KeyLease.Redis.Store

set_option autoImplicit false

/-!
# What a client makes of what comes back

A command is answered by a reply within the limit, or by none. A client reads some replies as a yes
and some as a no (`Reads`), and has no use for the others. `Reads.judge_cases` says that it is told
yes, no or an outage accordingly, and never a yes or a no where nothing of the kind came back. There
are three ways of reading: whether a key was set, how many keys there were, and signs of life.
-/

namespace KeyLease.Redis

/-! ## Outages -/

/-- An outage that is reported of an exchange of this kind. -/
def OutageOf (verb : Verb) (e : Failure) : Prop :=
  (∃ limit, e = .backendUnavailable (.timedOut verb limit)) ∨
    ∃ trouble, e = .backendUnavailable (.failed verb trouble)

theorem OutageOf.unavailable {verb : Verb} {e : Failure} (h : OutageOf verb e) :
    ∃ outage, e = .backendUnavailable outage := by
  rcases h with ⟨limit, rfl⟩ | ⟨trouble, rfl⟩
  · exact ⟨_, rfl⟩
  · exact ⟨_, rfl⟩

/-- What an exchange fails with is an outage of its kind. -/
theorem outageOf_bounded {α : Type} {verb : Verb} {limit : Duration}
    {heard : Option (Except Trouble α)} {e : Failure} (h : bounded verb limit heard = .error e) :
    OutageOf verb e := by
  rcases heard with _ | trouble | a
  · cases h
    exact Or.inl ⟨limit, rfl⟩
  · cases h
    exact Or.inr ⟨trouble, rfl⟩
  · cases h

/-! ## Replies -/

/-- A text or a number, as against an error and no value at all. -/
inductive Reply.IsValue : Reply → Prop
  | simple (text : String) : IsValue (.simple text)
  | bulk (text : String) : IsValue (.bulk text)
  | integer (n : Int) : IsValue (.integer n)

/-- A number, or a text that holds one. -/
inductive Reply.Counts : Reply → Int → Prop
  | integer (n : Int) : Counts (.integer n) n
  | simple {text : String} {n : Int} (h : Text.int64? text.toList = some n) :
      Counts (.simple text) n
  | bulk {text : String} {n : Int} (h : Text.int64? text.toList = some n) : Counts (.bulk text) n

/-- A number above zero. -/
def Reply.CountsSome (r : Reply) : Prop := ∃ n, r.Counts n ∧ 0 < n

/-- A number, and not above zero. -/
def Reply.CountsNone (r : Reply) : Prop := ∃ n, r.Counts n ∧ n ≤ 0

theorem Reply.isValue_iff {r : Reply} : r.IsValue ↔ r ≠ .nil ∧ ∀ text, r ≠ .error text := by
  constructor
  · rintro (_ | _ | _) <;> simp
  · intro ⟨hnil, herror⟩
    cases r with
    | simple text => exact .simple text
    | error text => exact absurd rfl (herror text)
    | integer n => exact .integer n
    | bulk text => exact .bulk text
    | nil => exact absurd rfl hnil

theorem Reply.countOfText_eq_ok_iff {text : String} {n : Int} :
    countOfText text = .ok n ↔ Text.int64? text.toList = some n := by
  unfold countOfText
  cases Text.int64? text.toList <;> simp

theorem Reply.count_eq_ok_iff {r : Reply} {n : Int} : r.count = .ok n ↔ r.Counts n := by
  constructor
  · intro h
    cases r with
    | simple text => exact .simple (countOfText_eq_ok_iff.mp h)
    | error text => cases h
    | integer k =>
        cases h
        exact .integer n
    | bulk text => exact .bulk (countOfText_eq_ok_iff.mp h)
    | nil => cases h
  · rintro (_ | h | h)
    · rfl
    · exact countOfText_eq_ok_iff.mpr h
    · exact countOfText_eq_ok_iff.mpr h

/-! ## Ways of reading -/

/-- A client reads these replies as a yes and those as a no. -/
structure Reads (take : Reply → Except Trouble Bool) (yes no : Reply → Prop) : Prop where
  yes_iff : ∀ r, take r = .ok true ↔ yes r
  no_iff : ∀ r, take r = .ok false ↔ no r

/-- A key was set by any value that comes back, and was not if there is none. -/
theorem reads_wasSet : Reads Reply.wasSet Reply.IsValue (· = .nil) := by
  constructor
  · intro r
    rw [Reply.isValue_iff]
    cases r <;> simp [Reply.wasSet]
  · intro r
    cases r <;> simp [Reply.wasSet]

/-- Keys were there if their number is positive. -/
theorem reads_anyKey : Reads Reply.anyKey Reply.CountsSome Reply.CountsNone := by
  constructor
  · intro r
    simp only [Reply.CountsSome, ← Reply.count_eq_ok_iff, Reply.anyKey]
    cases r.count <;> simp [Except.map]
  · intro r
    simp only [Reply.CountsNone, ← Reply.count_eq_ok_iff, Reply.anyKey]
    cases r.count <;> simp [Except.map]

/-- Any value is a sign of life, and there is no sign of the contrary. -/
theorem reads_isAlive : Reads Reply.isAlive Reply.IsValue fun _ => False := by
  constructor
  · intro r
    rw [Reply.isValue_iff]
    cases r <;> simp [Reply.isAlive]
  · intro r
    cases r <;> simp [Reply.isAlive]

/-- Whether a reply of some kind has come back. -/
def Came (kind : Reply → Prop) (reaction : Option Reply) : Prop :=
  ∃ reply, reaction = some reply ∧ kind reply

/-- What a client is told: yes, no, or an outage, as the reply that came back is read. -/
theorem Reads.judge_cases {take : Reply → Except Trouble Bool} {yes no : Reply → Prop}
    (h : Reads take yes no) (verb : Verb) (limit : Duration) (reaction : Option Reply) :
    (Came yes reaction ∧ ¬ Came no reaction ∧ judge verb limit take reaction = .ok true) ∨
    (Came no reaction ∧ ¬ Came yes reaction ∧ judge verb limit take reaction = .ok false) ∨
      ¬ Came yes reaction ∧ ¬ Came no reaction ∧
        ∃ e, OutageOf verb e ∧ judge verb limit take reaction = .error e := by
  have hcame : ∀ {kind : Reply → Prop} {reply : Reply},
      Came kind (some reply) ↔ kind reply := by
    intro kind reply
    simp [Came]
  rcases reaction with _ | reply
  · have hnone : ∀ kind : Reply → Prop, ¬ Came kind none := by
      rintro kind ⟨_, ⟨⟩, _⟩
    exact Or.inr (Or.inr ⟨hnone yes, hnone no, _, Or.inl ⟨limit, rfl⟩, judge_none verb limit take⟩)
  · -- The two kinds of reply are told apart by what the client reads, so at most one of them came.
    rw [hcame, hcame, ← h.yes_iff, ← h.no_iff]
    rcases htake : take reply with trouble | _ | _
    · exact Or.inr (Or.inr ⟨nofun, nofun, _, Or.inr ⟨trouble, rfl⟩, judge_of_error htake⟩)
    · exact Or.inr (Or.inl ⟨rfl, nofun, judge_of_ok htake⟩)
    · exact Or.inl ⟨rfl, nofun, judge_of_ok htake⟩

end KeyLease.Redis
