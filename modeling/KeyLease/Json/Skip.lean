import KeyLease.Json.Token

set_option autoImplicit false

/-!
# Passing over JSON values

A document may hold members that nobody asked for. `skipValue` passes over the value of one, however
deep, and answers the text behind it. The open brackets are kept as a list, innermost first, so
that nothing but the length of the text bounds the depth.

Numbers passed over are held to the grammar only. One that the end of the text cuts short is a
breach of the grammar, not a truncation, unlike a number that is read.
-/

namespace KeyLease.Json

/-- An open bracket. -/
inductive Bracket
  | array
  | object
  deriving DecidableEq, Repr

/-- The text behind a string that is passed over. The text begins behind the opening quote. -/
def skipString (cs : List Char) : Except Fault (List Char) :=
  (stringBody false cs).map (·.2)

/-- The text behind a sign, if one stands here. -/
def skipSign : List Char → List Char
  | '+' :: rest => rest
  | '-' :: rest => rest
  | cs => cs

/-- The text behind the exponent of a number, which begins behind the `e`. -/
def skipExponent (cs : List Char) : Except Fault (List Char) :=
  match leadingDigits (skipSign cs) with
  | ([], _) => .error .malformed
  | (_, rest) => .ok rest

/-- The text behind the decimals and exponent of a number, which begins behind the point. -/
def skipDecimals (cs : List Char) : Except Fault (List Char) :=
  match leadingDigits cs with
  | ([], _) => .error .malformed
  | (_, 'e' :: rest) => skipExponent rest
  | (_, 'E' :: rest) => skipExponent rest
  | (_, rest) => .ok rest

/-- The text behind a number, which begins behind its sign. -/
def skipNumber (cs : List Char) : Except Fault (List Char) :=
  match leadingDigits cs with
  | ([], _) => .error .malformed
  | (0 :: _ :: _, _) => .error .malformed
  | (_, '.' :: rest) => skipDecimals rest
  | (_, 'e' :: rest) => skipExponent rest
  | (_, 'E' :: rest) => skipExponent rest
  | (_, rest) => .ok rest

/-- The text behind a value without brackets. -/
def skipScalar (cs : List Char) : Except Fault (List Char) :=
  match cs with
  | 'n' :: rest => word ['u', 'l', 'l'] rest
  | 't' :: rest => word ['r', 'u', 'e'] rest
  | 'f' :: rest => word ['a', 'l', 's', 'e'] rest
  | '"' :: rest => skipString rest
  | '-' :: rest => skipNumber rest
  | [] => .error .truncated
  | c :: rest => if (Text.digit? c).isSome then skipNumber (c :: rest) else .error .malformed

/-! ## What is passed over is behind -/

theorem leadingDigits_length (cs : List Char) :
    (leadingDigits cs).1.length + (leadingDigits cs).2.length = cs.length := by
  induction cs with
  | nil => simp [leadingDigits]
  | cons c cs ih =>
      simp only [leadingDigits]
      split
      · simp; omega
      · simp

theorem word_length_le {expected cs rest : List Char} (h : word expected cs = .ok rest) :
    rest.length ≤ cs.length := by
  induction expected generalizing cs with
  | nil => simp [word] at h; simp [h]
  | cons e es ih =>
      cases cs with
      | nil => simp [word] at h
      | cons c cs =>
          simp only [word] at h
          split at h
          · exact Nat.le_succ_of_le (ih h)
          · simp at h

theorem stringBody_length_lt {paired : Bool} {cs s rest : List Char}
    (h : stringBody paired cs = .ok (s, rest)) : rest.length < cs.length := by
  fun_induction stringBody paired cs generalizing s with
  | case1 => simp at h
  | case2 cs rest' hc =>
      simp only [Except.ok.injEq, Prod.mk.injEq] at h
      exact h.2 ▸ stringChar_length_lt hc
  | case3 cs c rest' hc s' rest'' hs ih =>
      simp only [Except.ok.injEq, Prod.mk.injEq] at h
      obtain ⟨-, rfl⟩ := h
      exact Nat.lt_trans (ih hs) (stringChar_length_lt hc)
  | case4 => simp at h

theorem skipString_length_lt {cs rest : List Char} (h : skipString cs = .ok rest) :
    rest.length < cs.length := by
  unfold skipString at h
  cases hb : stringBody false cs with
  | error e => simp [hb, Except.map] at h
  | ok p =>
      obtain ⟨s, r⟩ := p
      simp only [hb, Except.map, Except.ok.injEq] at h
      exact h ▸ stringBody_length_lt hb

theorem skipSign_length_le (cs : List Char) : (skipSign cs).length ≤ cs.length := by
  unfold skipSign
  split <;> simp

theorem skipExponent_length_le {cs rest : List Char} (h : skipExponent cs = .ok rest) :
    rest.length ≤ cs.length := by
  have h₀ := skipSign_length_le cs
  have hl := leadingDigits_length (skipSign cs)
  unfold skipExponent at h
  split at h
  · simp at h
  · rename_i hd
    simp only [Except.ok.injEq] at h
    subst h
    simp [hd] at hl
    omega

theorem skipDecimals_length_le {cs rest : List Char} (h : skipDecimals cs = .ok rest) :
    rest.length ≤ cs.length := by
  have hl := leadingDigits_length cs
  unfold skipDecimals at h
  split at h
  · simp at h
  · rename_i hd
    have := skipExponent_length_le h
    simp [hd] at hl
    omega
  · rename_i hd
    have := skipExponent_length_le h
    simp [hd] at hl
    omega
  · rename_i hd
    simp only [Except.ok.injEq] at h
    subst h
    simp [hd] at hl
    omega

theorem skipNumber_length_lt {cs rest : List Char} (h : skipNumber cs = .ok rest) :
    rest.length < cs.length := by
  have hl := leadingDigits_length cs
  unfold skipNumber at h
  split at h
  · simp at h
  · simp at h
  · rename_i hd
    have := skipDecimals_length_le h
    simp [hd] at hl
    omega
  · rename_i hd
    have := skipExponent_length_le h
    simp [hd] at hl
    omega
  · rename_i hd
    have := skipExponent_length_le h
    simp [hd] at hl
    omega
  · -- Nothing follows the digits, and there is one at least.
    rename_i ds r hne _ _ _ _ hd
    simp only [Except.ok.injEq] at h
    subst h
    rw [hd] at hl
    cases ds with
    | nil => exact absurd rfl (hne)
    | cons => simp at hl; omega

theorem skipScalar_length_lt {cs rest : List Char} (h : skipScalar cs = .ok rest) :
    rest.length < cs.length := by
  unfold skipScalar at h
  split at h
  · exact Nat.lt_succ_of_le (word_length_le h)
  · exact Nat.lt_succ_of_le (word_length_le h)
  · exact Nat.lt_succ_of_le (word_length_le h)
  · exact Nat.lt_succ_of_lt (skipString_length_lt h)
  · exact Nat.lt_succ_of_lt (skipNumber_length_lt h)
  · simp at h
  · split at h
    · exact skipNumber_length_lt h
    · simp at h

/-! ## Nested values -/

/-- The text behind the name of a member and its colon. -/
def skipName (cs : List Char) : Except Fault (List Char) :=
  match skipSpace cs with
  | [] => .error .truncated
  | '"' :: rest =>
      match skipString rest with
      | .error e => .error e
      | .ok rest =>
          match skipSpace rest with
          | [] => .error .truncated
          | ':' :: rest => .ok rest
          | _ => .error .malformed
  | _ => .error .malformed

theorem skipName_length_lt {cs rest : List Char} (h : skipName cs = .ok rest) :
    rest.length < cs.length := by
  have h₀ := skipSpace_length_le cs
  unfold skipName at h
  split at h
  · simp at h
  · rename_i hs
    split at h
    · simp at h
    · rename_i r hr
      have h₁ := skipString_length_lt hr
      have h₂ := skipSpace_length_le r
      split at h
      · simp at h
      · rename_i hc
        simp only [Except.ok.injEq] at h
        subst h
        simp [hs] at h₀
        simp [hc] at h₂
        omega
      · simp at h
  · simp at h

/-- What may stand at the reader's place: a value, or the separator or bracket that follows one;
`first` marks the place behind an opening bracket, where a value may follow without a comma. -/
inductive Place
  | value
  | next (first : Bool)
  deriving DecidableEq, Repr

/-- The text behind the value at this place and all that the open brackets still hold. -/
def skipFrom (place : Place) (opened : List Bracket) (cs : List Char) :
    Except Fault (List Char) :=
  match place, opened with
  | .value, _ =>
      match _h : skipSpace cs with
      | [] => .error .truncated
      | '[' :: rest => skipFrom (.next true) (.array :: opened) rest
      | '\x7b' :: rest => skipFrom (.next true) (.object :: opened) rest
      | c :: rest =>
          match _h₁ : skipScalar (c :: rest) with
          | .error e => .error e
          | .ok rest => skipFrom (.next false) opened rest
  | .next _, [] => .ok cs
  | .next first, bracket :: outer =>
      match _h : skipSpace cs with
      | [] => .error .truncated
      | c :: rest =>
          if c = (match bracket with | .array => ']' | .object => '\x7d') then
            skipFrom (.next false) outer rest
          else if c = ',' ∧ ¬ first then
            match bracket with
            | .array => skipFrom .value (bracket :: outer) rest
            | .object =>
                match _h₁ : skipName rest with
                | .error e => .error e
                | .ok rest => skipFrom .value (bracket :: outer) rest
          else if ¬ first then .error .malformed
          else
            match bracket with
            | .array => skipFrom .value (bracket :: outer) (c :: rest)
            | .object =>
                match _h₁ : skipName (c :: rest) with
                | .error e => .error e
                | .ok rest => skipFrom .value (bracket :: outer) rest
termination_by (cs.length, if place = .next true then 1 else 0)
decreasing_by
  all_goals
    have h₀ := skipSpace_length_le cs
    simp only [_h, List.length_cons] at h₀
  · exact Prod.Lex.left _ _ (by omega)
  · exact Prod.Lex.left _ _ (by omega)
  · have := skipScalar_length_lt _h₁
    simp only [List.length_cons] at this
    exact Prod.Lex.left _ _ (by omega)
  · exact Prod.Lex.left _ _ (by omega)
  · exact Prod.Lex.left _ _ (by omega)
  · have := skipName_length_lt _h₁
    exact Prod.Lex.left _ _ (by omega)
  · -- Behind an opening bracket nothing may have been read yet: the place counts, not the length.
    rename_i hfirst
    have hfirst : first = true := by simpa using hfirst
    subst hfirst
    rcases Nat.lt_or_eq_of_le h₀ with hlt | heq
    · exact Prod.Lex.left _ _ (by simpa using hlt)
    · simp only [List.length_cons, heq]
      exact Prod.Lex.right _ (by simp)
  · have := skipName_length_lt _h₁
    simp only [List.length_cons] at this
    exact Prod.Lex.left _ _ (by omega)

/-- The text behind one value. -/
def skipValue (cs : List Char) : Except Fault (List Char) := skipFrom .value [] cs

end KeyLease.Json
