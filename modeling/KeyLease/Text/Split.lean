set_option autoImplicit false

/-!
# Cutting a text at a separator

`splitFirst` cuts at the first occurrence of a separating word, `splitLast` at the last occurrence
of a separating character. Both leave the separator out and answer `none` where there is none.
-/

namespace KeyLease.Text

/-- The text before and after the first occurrence of `sep`. -/
def splitFirst (sep : List Char) : List Char → Option (List Char × List Char)
  | [] => if sep.isEmpty then some ([], []) else none
  | c :: cs =>
      if sep.isPrefixOf (c :: cs) then some ([], (c :: cs).drop sep.length)
      else (splitFirst sep cs).map fun (before, after) => (c :: before, after)

/-- The text before and after the last occurrence of `sep`. -/
def splitLast (sep : Char) : List Char → Option (List Char × List Char)
  | [] => none
  | c :: cs =>
      match splitLast sep cs with
      | some (before, after) => some (c :: before, after)
      | none => if c = sep then some ([], cs) else none

/-- The pieces of a text between the occurrences of `sep`; always at least one. -/
def pieces (sep : Char) : List Char → List (List Char)
  | [] => [[]]
  | c :: cs =>
      if c = sep then [] :: pieces sep cs
      else
        match pieces sep cs with
        | [] => [[c]]
        | p :: ps => (c :: p) :: ps

/-! ## What a cut keeps -/

/-- The two parts of a cut with the separator between them are the text. -/
theorem eq_append_of_splitFirst {sep cs before after : List Char}
    (h : splitFirst sep cs = some (before, after)) : cs = before ++ sep ++ after := by
  induction cs generalizing before with
  | nil =>
      unfold splitFirst at h
      split at h
      · rename_i hsep
        simp only [Option.some.injEq, Prod.mk.injEq] at h
        simp [List.isEmpty_iff.mp hsep, ← h.1, ← h.2]
      · simp at h
  | cons c cs ih =>
      unfold splitFirst at h
      split at h
      · rename_i hsep
        simp only [Option.some.injEq, Prod.mk.injEq] at h
        obtain ⟨rest, hrest⟩ := List.isPrefixOf_iff_prefix.mp hsep
        rw [← h.1, ← h.2, ← hrest]
        simp
      · obtain ⟨⟨b, a⟩, hcut, heq⟩ := Option.map_eq_some_iff.mp h
        simp only [Prod.mk.injEq] at heq
        obtain ⟨rfl, rfl⟩ := heq
        rw [ih hcut]
        simp

/-- There is a cut where there is a separator. -/
theorem splitLast_append_ne_none (sep : Char) (before after : List Char) :
    splitLast sep (before ++ sep :: after) ≠ none := by
  induction before with
  | nil =>
      simp only [List.nil_append, splitLast]
      split <;> simp
  | cons c cs ih =>
      simp only [List.cons_append, splitLast]
      split
      · simp
      · rename_i hnone
        exact absurd hnone ih

/-- The second part of a cut at the last separator holds none. -/
theorem eq_append_of_splitLast {sep : Char} {cs before after : List Char}
    (h : splitLast sep cs = some (before, after)) :
    cs = before ++ sep :: after ∧ sep ∉ after := by
  induction cs generalizing before after with
  | nil => simp [splitLast] at h
  | cons c cs ih =>
      unfold splitLast at h
      split at h
      · rename_i b a hcut
        simp only [Option.some.injEq, Prod.mk.injEq] at h
        obtain ⟨hcs, hnot⟩ := ih hcut
        rw [← h.1, ← h.2]
        exact ⟨by simp [hcs], hnot⟩
      · rename_i hnone
        split at h
        · rename_i hc
          simp only [Option.some.injEq, Prod.mk.injEq] at h
          rw [← h.1, ← h.2]
          refine ⟨by simp [hc], ?_⟩
          intro hmem
          obtain ⟨before, after, happ⟩ := List.append_of_mem hmem
          exact absurd hnone (by rw [happ]; exact splitLast_append_ne_none _ _ _)
        · simp at h

end KeyLease.Text
