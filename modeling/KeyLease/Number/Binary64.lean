set_option autoImplicit false

/-!
# Binary numbers of 64 bits

A magnitude in the binary64 format is a mantissa below `2 ^ 53` times a power of two. Rounding a
quotient goes to the nearest such number, and a tie to the even mantissa; beyond the largest one
there is none. All arithmetic is on whole numbers, so every result can be computed in a proof.
-/

namespace KeyLease

/-- A magnitude `mantissa * 2 ^ exponent`. -/
structure Binary64 where
  mantissa : Nat
  exponent : Int
  deriving DecidableEq, Repr

namespace Binary64

/-- The least exponent. -/
def minExponent : Int := -1074

/-- The greatest exponent. -/
def maxExponent : Int := 971

/-- The number of bits of a mantissa. -/
def precision : Nat := 53

/-- Zero. -/
def zero : Binary64 := ⟨0, minExponent⟩

/-- `n / d` rounded to the nearest whole number, a tie to the even one. -/
def roundQuotient (n d : Nat) : Nat :=
  let q := n / d
  let r := n % d
  if 2 * r < d then q
  else if 2 * r = d then q + q % 2
  else q + 1

/-- Numerator and denominator of `n / d * 2 ^ e`. -/
def scale (n d : Nat) (e : Int) : Nat × Nat :=
  if 0 ≤ e then (n <<< e.toNat, d) else (n, d <<< (-e).toNat)

/-- The exponent `k` with `2 ^ k ≤ n / d < 2 ^ (k + 1)`. -/
def binaryOrder (n d : Nat) : Int :=
  let k : Int := (Nat.log2 n : Int) - (Nat.log2 d : Int)
  let (n', d') := scale n d (-k)
  if d' ≤ n' then k else k - 1

/-- `n / d` rounded to the nearest number of the format; none beyond the largest. -/
def ofQuotient (n d : Nat) : Option Binary64 :=
  if n = 0 ∨ d = 0 then some zero else
  let e := max (binaryOrder n d - (precision - 1)) minExponent
  let (n', d') := scale n d (-e)
  let m := roundQuotient n' d'
  -- The mantissa may have been rounded up to a power of two that is one bit too long.
  let rounded : Binary64 := if m = 1 <<< precision then ⟨1 <<< (precision - 1), e + 1⟩ else ⟨m, e⟩
  if maxExponent < rounded.exponent then none else some rounded

/-- The number nearest to a whole number. -/
def ofNat (n : Nat) : Option Binary64 := ofQuotient n 1

/-- The product, rounded. -/
def mul (a b : Binary64) : Option Binary64 :=
  let (n, d) := scale (a.mantissa * b.mantissa) 1 (a.exponent + b.exponent)
  ofQuotient n d

/-- The quotient, rounded. -/
def div (a b : Binary64) : Option Binary64 :=
  let (n, d) := scale a.mantissa b.mantissa (a.exponent - b.exponent)
  ofQuotient n d

/-- `a * 10 ^ k`, where the power is rounded before the product is. -/
def mulPow10 (a : Binary64) (k : Nat) : Option Binary64 := (ofNat (Nat.pow 10 k)).bind a.mul

/-- `a / 10 ^ k`, where the power is rounded before the quotient is. -/
def divPow10 (a : Binary64) (k : Nat) : Option Binary64 := (ofNat (Nat.pow 10 k)).bind a.div

/-- The greatest power of ten that has a number of the format. -/
def maxPow10 : Nat := 308

/-- `a` divided that many times by the greatest power of ten. -/
def divMaxPow10 (a : Binary64) : Nat → Option Binary64
  | 0 => some a
  | times + 1 =>
      if a.mantissa = 0 then some a
      else (a.divPow10 maxPow10).bind (divMaxPow10 · times)

/-- `a * 10 ^ (-k)`, where a power beyond the greatest is divided out in steps. -/
def divPow10Steps (a : Binary64) (k : Nat) : Option Binary64 :=
  let times := (k - 1) / maxPow10
  (a.divMaxPow10 times).bind (·.divPow10 (k - times * maxPow10))

/-- `n * 10 ^ k` as a reader of decimals assembles it: the digits as one number, then one product
or quotient with a power of ten. None if the result is too great. -/
def assemble (n : Nat) (k : Int) : Option Binary64 :=
  match ofNat n with
  | none => none
  | some a =>
      if k < 0 then a.divPow10Steps (-k).toNat
      else if k.toNat ≤ maxPow10 then a.mulPow10 k.toNat
      else if a.mantissa = 0 then some a
      else none

end Binary64

end KeyLease
