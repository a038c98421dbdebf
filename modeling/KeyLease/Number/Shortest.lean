import KeyLease.Number.Binary64

set_option autoImplicit false

/-!
# The fewest digits that read back

`Binary64.shortest` finds, for a positive number of the binary64 format, a decimal `digits * 10 ^
power` with the fewest digits that rounds to the number, and of those the nearest. The numbers that
round to it form an interval, which holds its ends exactly if the mantissa is even. On a grid of
powers of ten it is enough to try the two neighbours of the number: if any point of the grid lies
in the interval, one of these does.

`Binary64.text` writes that decimal by the rule of `positional`: a point with at least one digit on
either side where the order is moderate, else an exponent with its sign and at least two digits.
-/

namespace KeyLease.Binary64

/-- A number `digits * 10 ^ power`. -/
structure Decimal where
  digits : Nat
  power : Int
  deriving DecidableEq, Repr

/-- Numerator and denominator of `n * 10 ^ p`. -/
def decimalFraction (n : Nat) (p : Int) : Nat × Nat :=
  if 0 ≤ p then (n * Nat.pow 10 p.toNat, 1) else (n, Nat.pow 10 (-p).toNat)

/-- Whether a fraction rounds to the number. All is counted in quarters of a unit of the last
place, because the gap below a power of two is half as wide. -/
def holds (v : Binary64) (n d : Nat) : Bool :=
  let below := if v.mantissa = 1 <<< (precision - 1) ∧ minExponent < v.exponent then 1 else 2
  let (n', d') := scale n d (2 - v.exponent)
  let lo := (4 * v.mantissa - below) * d'
  let hi := (4 * v.mantissa + 2) * d'
  if v.mantissa % 2 = 0 then lo ≤ n' && n' ≤ hi else lo < n' && n' < hi

/-- The exponent `k` with `10 ^ k ≤ n / d < 10 ^ (k + 1)`. -/
def decimalOrder (n d : Nat) : Int :=
  let k : Int := ((Nat.toDigits 10 n).length : Int) - ((Nat.toDigits 10 d).length : Int)
  let reached := if 0 ≤ k then d * Nat.pow 10 k.toNat ≤ n else d ≤ n * Nat.pow 10 (-k).toNat
  if reached then k else k - 1

/-- The nearer of the grid's two neighbours of `n / d` that rounds to the number; a tie goes to the
even one. -/
def onGrid (v : Binary64) (n d : Nat) (p : Int) : Option Decimal :=
  let (gn, gd) := decimalFraction 1 p
  let q := n * gd / (d * gn)
  let r := n * gd % (d * gn)
  let fits (k : Nat) : Bool :=
    let (kn, kd) := decimalFraction k p
    v.holds kn kd
  let lowFirst := 2 * r < d * gn || (2 * r = d * gn && q % 2 = 0)
  let (first, second) := if lowFirst then (q, q + 1) else (q + 1, q)
  if fits first then some ⟨first, p⟩
  else if fits second then some ⟨second, p⟩
  else none

/-- The first of the grids with `tried`, `tried + 1`, … digits that has a point which reads back;
`left` grids are still to be tried. -/
def firstGrid (v : Binary64) (n d : Nat) (order : Int) (tried : Nat) : Nat → Decimal
  | 0 => ⟨v.mantissa, 0⟩
  | left + 1 =>
      match onGrid v n d (order - tried + 1) with
      | some found => found
      | none => firstGrid v n d order (tried + 1) left

/-- The decimal with the fewest digits that rounds to the number; 17 digits always suffice. -/
def shortest (v : Binary64) : Decimal :=
  let (n, d) := scale v.mantissa 1 v.exponent
  firstGrid v n d (decimalOrder n d) 1 17

/-! ## Text -/

/-- The orders that are written without an exponent. -/
def positional (order : Int) : Bool := -5 ≤ order && order ≤ 15

/-- An exponent: its sign and at least two digits. -/
def exponentText (order : Int) : String :=
  let digits := Nat.toDigits 10 order.natAbs
  let padded := if digits.length < 2 then '0' :: digits else digits
  String.ofList ('e' :: (if order < 0 then '-' else '+') :: padded)

/-- The digits of a positive number with point and exponent. -/
def layout (digits : List Char) (order : Int) : String :=
  let zeros (n : Nat) : List Char := List.replicate n '0'
  if positional order then
    if order < 0 then String.ofList ('0' :: '.' :: zeros ((-order).toNat - 1) ++ digits)
    else
      let whole := order.toNat + 1
      if digits.length ≤ whole then
        String.ofList (digits ++ zeros (whole - digits.length) ++ ['.', '0'])
      else String.ofList (digits.take whole ++ '.' :: digits.drop whole)
  else
    match digits with
    | [] => ""
    | [c] => String.singleton c ++ exponentText order
    | c :: rest => String.ofList (c :: '.' :: rest) ++ exponentText order

/-- A number of the format in decimal; `negative` puts a minus sign before it, also before zero. -/
def text (negative : Bool) (v : Binary64) : String :=
  let sign := if negative then "-" else ""
  if v.mantissa = 0 then sign ++ "0.0" else
  let found := v.shortest
  let digits := Nat.toDigits 10 found.digits
  let order := found.power + digits.length - 1
  let significant := (digits.reverse.dropWhile (· = '0')).reverse
  sign ++ layout significant order

end KeyLease.Binary64
