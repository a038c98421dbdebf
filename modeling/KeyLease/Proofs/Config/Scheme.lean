import KeyLease.Config.Basic
import KeyLease.Redis.Endpoint

set_option autoImplicit false

/-!
# The scheme of a URI

A URI is cut at its first `://`. No end of that mark is also its beginning, so a scheme that holds
no mark is cut off wherever a mark follows it (`splitFirst_schemeMark`), and a configuration has
exactly the scheme with whose mark its URI starts. `backendKind_eq_memory_iff` and
`backendKind_eq_redis_iff` say so of the schemes that select a backend.
-/

namespace KeyLease

namespace Text

/-! ## Cuts at the first separator -/

/-- There is a cut where there is a separator. -/
theorem splitFirst_append_ne_none (sep before after : List Char) :
    splitFirst sep (before ++ sep ++ after) ≠ none := by
  induction before with
  | nil =>
      cases sep with
      | nil => cases after <;> simp [splitFirst]
      | cons c sep => simp [splitFirst]
  | cons c before ih =>
      simp only [List.append_assoc, List.cons_append] at ih ⊢
      unfold splitFirst
      split
      · simp
      · simpa using ih

/-- No cut, no separator. -/
theorem not_infix_of_splitFirst_eq_none {sep cs : List Char} (h : splitFirst sep cs = none) :
    ¬ sep <:+: cs := by
  rintro ⟨before, after, rfl⟩
  exact splitFirst_append_ne_none sep before after h

/-- The text before a cut holds no separator. -/
theorem not_infix_of_splitFirst {sep cs before after : List Char} (hsep : sep ≠ [])
    (h : splitFirst sep cs = some (before, after)) : ¬ sep <:+: before := by
  induction cs generalizing before with
  | nil => simp [splitFirst, hsep] at h
  | cons c cs ih =>
      unfold splitFirst at h
      split at h
      · rename_i hhere
        cases h
        exact fun hinfix => hsep (List.infix_nil.mp hinfix)
      · rename_i hnot
        obtain ⟨⟨b, a⟩, hcut, heq⟩ := Option.map_eq_some_iff.mp h
        cases heq
        rw [List.infix_cons_iff, not_or]
        refine ⟨?_, ih hcut⟩
        -- A separator at the very front would have been the first one.
        rintro ⟨rest, hrest⟩
        apply hnot
        rw [List.isPrefixOf_iff_prefix, eq_append_of_splitFirst hcut]
        refine ⟨rest ++ sep ++ after, ?_⟩
        rw [← List.append_assoc, ← List.append_assoc, hrest]
        rfl

end Text

namespace Redis

/-- A scheme is cut off at the first mark. -/
theorem splitFirst_schemeMark {scheme : List Char} (h : ¬ schemeMark <:+: scheme)
    (rest : List Char) :
    Text.splitFirst schemeMark (scheme ++ schemeMark ++ rest) = some (scheme, rest) := by
  induction scheme with
  | nil => simp [Text.splitFirst, schemeMark]
  | cons c scheme ih =>
      rw [List.infix_cons_iff, not_or] at h
      have hnot : ¬ schemeMark.isPrefixOf (c :: (scheme ++ schemeMark ++ rest)) := by
        intro hhere
        rw [List.isPrefixOf_iff_prefix] at hhere
        match scheme with
        | [] => simp [schemeMark] at hhere
        | [d] => simp [schemeMark] at hhere
        | d :: e :: scheme =>
            refine h.1 ?_
            simp only [schemeMark, List.cons_append, List.cons_prefix_cons] at hhere ⊢
            exact ⟨hhere.1, hhere.2.1, hhere.2.2.1, List.nil_prefix⟩
      simp only [List.append_assoc, List.cons_append] at ih hnot ⊢
      rw [Text.splitFirst, if_neg hnot, ih h.2]
      rfl

end Redis

namespace Config

open Redis

/-- The URI of a configuration starts with a text. -/
def StartsWith (c : Config) (start : String) : Prop := start.toList <+: c.uri.toList

/-- The scheme is what stands before the first mark, if anything does. -/
theorem scheme_eq_ok_iff {c : Config} {name : String} :
    c.scheme = .ok name ↔
      name ≠ "" ∧ ∃ rest, Text.splitFirst schemeMark c.uri.toList = some (name.toList, rest) := by
  constructor
  · intro h
    unfold scheme at h
    split at h
    · cases h
    · split at h
      · rename_i cut rest hcut
        split at h
        · cases h
        · rename_i hsome
          cases h
          rw [String.toList_ofList]
          refine ⟨fun hempty => hsome ?_, rest, hcut⟩
          simpa using congrArg String.toList hempty
      · cases h
  · rintro ⟨hsome, rest, hcut⟩
    have hblank : Text.isBlank c.uri = false := by
      -- The mark is there, and its characters are no white space.
      rw [Text.isBlank, Text.eq_append_of_splitFirst hcut]
      have hmark : schemeMark.all Text.isBlankChar = false := by decide
      simp [hmark]
    have hname : name.toList.isEmpty = false := by simpa using hsome
    simp only [schemeMark] at hcut
    simp [scheme, hblank, hcut, hname]

/-- So a configuration has the scheme with whose mark its URI starts. -/
theorem scheme_eq_ok_iff_startsWith {c : Config} {name : String} (hsome : name ≠ "")
    (hname : ¬ schemeMark <:+: name.toList) :
    c.scheme = .ok name ↔ c.StartsWith (name ++ "://") := by
  have hmark : (name ++ "://").toList = name.toList ++ schemeMark := by
    simp [schemeMark]
  rw [scheme_eq_ok_iff, StartsWith, hmark]
  constructor
  · rintro ⟨-, rest, hcut⟩
    exact ⟨rest, (Text.eq_append_of_splitFirst hcut).symm⟩
  · rintro ⟨rest, hrest⟩
    exact ⟨hsome, rest, by rw [← hrest, splitFirst_schemeMark hname]⟩

theorem kindOfScheme_eq_memory_iff {name : String} :
    kindOfScheme name = .ok .memory ↔ name = "memory" := by
  unfold kindOfScheme
  split
  · simp [*]
  · split <;> simp [*]

theorem kindOfScheme_eq_redis_iff {name : String} :
    kindOfScheme name = .ok .redis ↔ name = "redis" ∨ name = "rediss" := by
  unfold kindOfScheme
  split
  · simp [*]
  · split <;> simp [*]

/-- The backend is that of the scheme. -/
theorem backendKind_eq_ok_iff {c : Config} {kind : BackendKind} :
    c.backendKind = .ok kind ↔ ∃ name, c.scheme = .ok name ∧ kindOfScheme name = .ok kind := by
  unfold backendKind
  cases c.scheme with
  | ok name => simp
  | error e => simp

/-- The memory backend is that of the URIs that start with `memory://`. -/
theorem backendKind_eq_memory_iff {c : Config} :
    c.backendKind = .ok .memory ↔ c.StartsWith "memory://" := by
  have hscheme : c.scheme = .ok "memory" ↔ c.StartsWith ("memory" ++ "://") :=
    scheme_eq_ok_iff_startsWith (by decide) (by decide +kernel)
  have hstart : "memory" ++ "://" = "memory://" := by decide +kernel
  rw [← hstart, ← hscheme, backendKind_eq_ok_iff]
  simp only [kindOfScheme_eq_memory_iff, exists_eq_right]

/-- The Redis backend is that of the URIs that start with `redis://` or `rediss://`. -/
theorem backendKind_eq_redis_iff {c : Config} :
    c.backendKind = .ok .redis ↔ c.StartsWith "redis://" ∨ c.StartsWith "rediss://" := by
  have hplain : c.scheme = .ok "redis" ↔ c.StartsWith ("redis" ++ "://") :=
    scheme_eq_ok_iff_startsWith (by decide) (by decide +kernel)
  have hsecure : c.scheme = .ok "rediss" ↔ c.StartsWith ("rediss" ++ "://") :=
    scheme_eq_ok_iff_startsWith (by decide) (by decide +kernel)
  have hstart : "redis" ++ "://" = "redis://" ∧ "rediss" ++ "://" = "rediss://" := by
    decide +kernel
  rw [← hstart.1, ← hstart.2, ← hplain, ← hsecure, backendKind_eq_ok_iff]
  simp only [kindOfScheme_eq_redis_iff, and_or_left, exists_or, exists_eq_right]

end Config

end KeyLease
