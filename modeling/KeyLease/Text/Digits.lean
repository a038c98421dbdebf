set_option autoImplicit false

/-!
# Numbers written in decimal

Whole numbers as a command line or a server writes them: an optional sign, then one or more ASCII
digits, leading zeros allowed and nothing else. A number outside its bounds is refused.
-/

namespace KeyLease.Text

/-- The value of an ASCII digit. -/
def digit? (c : Char) : Option Nat :=
  if '0' ≤ c ∧ c ≤ '9' then some (c.toNat - '0'.toNat) else none

/-- The number that the digits write after the number `acc`; `none` at the first other character. -/
def digitsFrom (acc : Nat) : List Char → Option Nat
  | [] => some acc
  | c :: cs =>
      match digit? c with
      | some d => digitsFrom (acc * 10 + d) cs
      | none => none

/-- The number that a text of one or more digits writes. -/
def magnitude? : List Char → Option Nat
  | [] => none
  | c :: cs => digitsFrom 0 (c :: cs)

/-- A number below `bound`, with an optional plus sign. -/
def natBelow? (bound : Nat) (cs : List Char) : Option Nat :=
  let digits := match cs with
    | '+' :: rest => rest
    | _ => cs
  match magnitude? digits with
  | some n => if n < bound then some n else none
  | none => none

/-- A whole number of 64 bits with an optional sign: at least `-2 ^ 63` and below `2 ^ 63`. -/
def int64? (cs : List Char) : Option Int :=
  match cs with
  | '-' :: rest =>
      match magnitude? rest with
      | some n => if n ≤ 0x8000000000000000 then some (-(n : Int)) else none
      | none => none
  | _ => (natBelow? 0x8000000000000000 cs).map Int.ofNat

end KeyLease.Text
