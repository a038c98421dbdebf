import KeyLease.Json.Fault
import KeyLease.Text.Digits
import KeyLease.Text.PercentCoding
import KeyLease.Number.Shortest

set_option autoImplicit false

/-!
# Tokens of a JSON text

Readers of the words, strings and numbers of JSON. Each takes the text at its place and answers
what it read and the text behind it, or the fault that it met first. Strings come in two
strengths: read for their text, where the two halves of a code point beyond 16 bits must stand
together, and passed over, where any four hexadecimal digits will do.
-/

namespace KeyLease.Json

/-- White space between tokens. -/
def isSpace (c : Char) : Bool := c = ' ' || c = '\n' || c = '\t' || c = '\r'

/-- The text from its first token on. -/
def skipSpace (cs : List Char) : List Char := cs.dropWhile isSpace

theorem skipSpace_length_le (cs : List Char) : (skipSpace cs).length ≤ cs.length := by
  unfold skipSpace
  induction cs with
  | nil => simp
  | cons c rest ih =>
      rw [List.dropWhile_cons]
      split
      · exact Nat.le_succ_of_le ih
      · exact Nat.le_refl _

/-- The text behind a word that must stand here. -/
def word (expected : List Char) (cs : List Char) : Except Fault (List Char) :=
  match expected, cs with
  | [], rest => .ok rest
  | _ :: _, [] => .error .truncated
  | e :: es, c :: rest => if c = e then word es rest else .error .malformed

/-! ## Strings -/

/-- Four hexadecimal digits. A text of fewer than four bytes is truncated. -/
def hexUnit (cs : List Char) : Except Fault (Nat × List Char) :=
  match cs with
  | a :: b :: c :: d :: rest =>
      match Text.PercentCoding.hexDigit? a, Text.PercentCoding.hexDigit? b,
        Text.PercentCoding.hexDigit? c, Text.PercentCoding.hexDigit? d with
      | some a, some b, some c, some d => .ok (((a * 16 + b) * 16 + c) * 16 + d, rest)
      | _, _, _, _ => .error .malformed
  | few =>
      if (String.ofList few).utf8ByteSize < 4 then .error .truncated else .error .malformed

/-- The first half of a pair that stands for one code point beyond 16 bits. -/
def isHighHalf (n : Nat) : Bool := 0xD800 ≤ n && n ≤ 0xDBFF

/-- The second half of such a pair. -/
def isLowHalf (n : Nat) : Bool := 0xDC00 ≤ n && n ≤ 0xDFFF

/-- The code point that two halves stand for. -/
def joinHalves (high low : Nat) : Nat := (high - 0xD800) * 1024 + (low - 0xDC00) + 0x10000

/-- The character of an escape by code point. The text begins behind `\u`. -/
def codePoint (paired : Bool) (cs : List Char) : Except Fault (Char × List Char) :=
  match hexUnit cs with
  | .error e => .error e
  | .ok (n, rest) =>
      if ¬ paired then .ok (Char.ofNat n, rest)
      else if isLowHalf n then .error .malformed
      else if ¬ isHighHalf n then .ok (Char.ofNat n, rest)
      else
        match rest with
        | [] => .error .truncated
        | ['\\'] => .error .truncated
        | '\\' :: 'u' :: rest₁ =>
            match hexUnit rest₁ with
            | .error e => .error e
            | .ok (m, rest₂) =>
                if isLowHalf m then .ok (Char.ofNat (joinHalves n m), rest₂)
                else .error .malformed
        | _ => .error .malformed

/-- The next character of a string, or `none` at the closing quote. -/
def stringChar (paired : Bool) : List Char → Except Fault (Option Char × List Char)
  | [] => .error .truncated
  | '"' :: rest => .ok (none, rest)
  | '\\' :: rest =>
      match rest with
      | [] => .error .truncated
      | '"' :: rest => .ok (some '"', rest)
      | '\\' :: rest => .ok (some '\\', rest)
      | '/' :: rest => .ok (some '/', rest)
      | 'b' :: rest => .ok (some '\x08', rest)
      | 'f' :: rest => .ok (some '\x0c', rest)
      | 'n' :: rest => .ok (some '\n', rest)
      | 'r' :: rest => .ok (some '\r', rest)
      | 't' :: rest => .ok (some '\t', rest)
      | 'u' :: rest =>
          match codePoint paired rest with
          | .ok (c, rest) => .ok (some c, rest)
          | .error e => .error e
      | _ :: _ => .error .malformed
  | c :: rest => if c.toNat < 0x20 then .error .malformed else .ok (some c, rest)

theorem hexUnit_length_lt {cs rest : List Char} {n : Nat} (h : hexUnit cs = .ok (n, rest)) :
    rest.length < cs.length := by
  unfold hexUnit at h
  split at h
  · split at h
    · simp only [Except.ok.injEq, Prod.mk.injEq] at h
      obtain ⟨-, rfl⟩ := h
      simp
      omega
    · simp at h
  · split at h <;> simp at h

theorem codePoint_length_lt {paired : Bool} {cs rest : List Char} {c : Char}
    (h : codePoint paired cs = .ok (c, rest)) : rest.length < cs.length := by
  unfold codePoint at h
  split at h
  · simp at h
  · rename_i n rest₀ h₀
    have h₀ := hexUnit_length_lt h₀
    split at h
    · simp only [Except.ok.injEq, Prod.mk.injEq] at h
      exact h.2 ▸ h₀
    · split at h
      · simp at h
      · split at h
        · simp only [Except.ok.injEq, Prod.mk.injEq] at h
          exact h.2 ▸ h₀
        · split at h
          · simp at h
          · simp at h
          · split at h
            · simp at h
            · rename_i h₁
              have h₁ := hexUnit_length_lt h₁
              split at h
              · simp only [Except.ok.injEq, Prod.mk.injEq] at h
                obtain ⟨-, rfl⟩ := h
                simp at h₀ h₁
                omega
              · simp at h
          · simp at h

theorem stringChar_length_lt {paired : Bool} {cs rest : List Char} {c : Option Char}
    (h : stringChar paired cs = .ok (c, rest)) : rest.length < cs.length := by
  unfold stringChar at h
  split at h
  · simp at h
  · simp only [Except.ok.injEq, Prod.mk.injEq] at h
    simp [← h.2]
  · split at h
    case h_10 =>
      split at h
      · rename_i h₁
        have h₁ := codePoint_length_lt h₁
        simp only [Except.ok.injEq, Prod.mk.injEq] at h
        obtain ⟨-, rfl⟩ := h
        simp
        omega
      · simp at h
    all_goals first
      | (simp only [Except.ok.injEq, Prod.mk.injEq] at h; obtain ⟨-, rfl⟩ := h
         simp only [List.length_cons]; omega)
      | simp at h
  · split at h
    · simp at h
    · simp only [Except.ok.injEq, Prod.mk.injEq] at h
      simp [← h.2]

/-- The characters of a string up to its closing quote, and the text behind that. The text begins
behind the opening quote. -/
def stringBody (paired : Bool) (cs : List Char) : Except Fault (List Char × List Char) :=
  match _h : stringChar paired cs with
  | .error e => .error e
  | .ok (none, rest) => .ok ([], rest)
  | .ok (some c, rest) =>
      match stringBody paired rest with
      | .ok (s, rest) => .ok (c :: s, rest)
      | .error e => .error e
termination_by cs.length
decreasing_by exact stringChar_length_lt _h

/-! ## Numbers -/

/-- A number as it is told apart: whole numbers of 64 bits, and all others by their text. -/
inductive Numeral
  | natural (n : Nat)
  | negative (n : Nat)
  | floating (text : String)
  deriving DecidableEq, Repr

/-- The leading digits of a text, and the rest. -/
def leadingDigits : List Char → List Nat × List Char
  | [] => ([], [])
  | c :: cs =>
      match Text.digit? c with
      | some d =>
          let (ds, rest) := leadingDigits cs
          (d :: ds, rest)
      | none => ([], c :: cs)

/-- Digits appended to a number while it stays below `bound`, and the digits from the first that
would take it there. -/
def accumulate (bound : Nat) (n : Nat) : List Nat → Nat × List Nat
  | [] => (n, [])
  | d :: ds => if n * 10 + d < bound then accumulate bound (n * 10 + d) ds else (n, d :: ds)

/-- The number of a significand and a power of ten. -/
def floating (negative : Bool) (significand : Nat) (power : Int) (rest : List Char) :
    Except Fault (Numeral × List Char) :=
  match Binary64.assemble significand power with
  | some v => .ok (.floating (v.text negative), rest)
  | none => .error .malformed

/-- A number from its exponent on; the text begins behind the `e`. -/
def exponent (negative : Bool) (significand : Nat) (power : Int) (cs : List Char) :
    Except Fault (Numeral × List Char) :=
  let (down, cs) : Bool × List Char := match cs with
    | '+' :: rest => (false, rest)
    | '-' :: rest => (true, rest)
    | _ => (false, cs)
  match leadingDigits cs with
  | ([], []) => .error .truncated
  | ([], _ :: _) => .error .malformed
  | (ds, rest) =>
      match accumulate 0x80000000 0 ds with
      | (e, []) => floating negative significand (if down then power - e else power + e) rest
      | (_, _ :: _) =>
          if significand ≠ 0 ∧ ¬ down then .error .malformed
          else .ok (.floating (Binary64.zero.text negative), rest)

/-- A number from its decimals on; the text begins behind the point. -/
def decimals (negative : Bool) (significand : Nat) (power : Int) (cs : List Char) :
    Except Fault (Numeral × List Char) :=
  match leadingDigits cs with
  | ([], []) => .error .truncated
  | ([], _ :: _) => .error .malformed
  | (ds, rest) =>
      let (significand, ignored) := accumulate 0x10000000000000000 significand ds
      let power := power - (ds.length - ignored.length : Nat)
      match rest with
      | 'e' :: rest => exponent negative significand power rest
      | 'E' :: rest => exponent negative significand power rest
      | _ => floating negative significand power rest

/-- A number; the text begins behind its sign. -/
def numeral (negative : Bool) (cs : List Char) : Except Fault (Numeral × List Char) :=
  match leadingDigits cs with
  | ([], []) => .error .truncated
  | ([], _ :: _) => .error .malformed
  | (0 :: _ :: _, _) => .error .malformed
  | (ds, rest) =>
      let (significand, dropped) := accumulate 0x10000000000000000 0 ds
      match rest with
      | '.' :: rest => decimals negative significand dropped.length rest
      | 'e' :: rest => exponent negative significand dropped.length rest
      | 'E' :: rest => exponent negative significand dropped.length rest
      | _ =>
          if ¬ dropped.isEmpty then floating negative significand dropped.length rest
          else if ¬ negative then .ok (.natural significand, rest)
          else if significand = 0 ∨ 0x8000000000000000 < significand then floating true significand 0 rest
          else .ok (.negative significand, rest)

end KeyLease.Json
