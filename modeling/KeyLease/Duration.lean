set_option autoImplicit false

/-!
# Durations and instants

A duration is a whole number of nanoseconds. An instant is the number of nanoseconds since the
origin of the clock that was read. `Duration.text` writes a duration in its largest fitting unit,
with an exact fraction and no trailing zeros: `1.5s`, `10µs`, `0ns`.
-/

namespace KeyLease

/-- A length of time in whole nanoseconds. -/
structure Duration where
  nanos : Nat
  deriving DecidableEq, Repr

namespace Duration

instance : LT Duration := ⟨fun a b => a.nanos < b.nanos⟩
instance : LE Duration := ⟨fun a b => a.nanos ≤ b.nanos⟩
instance (a b : Duration) : Decidable (a < b) := inferInstanceAs (Decidable (a.nanos < b.nanos))
instance (a b : Duration) : Decidable (a ≤ b) := inferInstanceAs (Decidable (a.nanos ≤ b.nanos))

/-- The duration of no length. -/
def zero : Duration := ⟨0⟩

/-- `n` whole milliseconds. -/
def ofMillis (n : Nat) : Duration := ⟨n * 1000000⟩

/-- `s` seconds and `n` nanoseconds. -/
def ofParts (s n : Nat) : Duration := ⟨s * 1000000000 + n⟩

/-- `s` whole seconds. -/
def ofSeconds (s : Nat) : Duration := ofParts s 0

/-- The whole seconds of a duration. -/
def seconds (d : Duration) : Nat := d.nanos / 1000000000

/-- The nanoseconds beyond the whole seconds. -/
def subsecNanos (d : Duration) : Nat := d.nanos % 1000000000

/-- The whole milliseconds of a duration, rounded down. -/
def wholeMillis (d : Duration) : Nat := d.nanos / 1000000

/-- The least number of milliseconds that is no shorter: what a timer of that resolution waits. -/
def timerMillis (d : Duration) : Nat := (d.nanos + 999999) / 1000000

/-! ## Text -/

/-- The digits after the point of `n / 10 ^ width`, where `n < 10 ^ width`: none if `n` is zero,
else a point and `width` digits less the trailing zeros. -/
def fractionText (width n : Nat) : String :=
  if n = 0 then "" else
  let digits := Nat.toDigits 10 n
  let padded := List.replicate (width - digits.length) '0' ++ digits
  String.ofList ('.' :: (padded.reverse.dropWhile (· == '0')).reverse)

/-- `n` counted in units of `10 ^ width`, then the unit's name. -/
def inUnit (width n : Nat) (unit : String) : String :=
  let one := Nat.pow 10 width
  (n / one).repr ++ fractionText width (n % one) ++ unit

/-- A duration in the largest of the units s, ms, µs and ns that it reaches. -/
def text (d : Duration) : String :=
  if 1000000000 ≤ d.nanos then inUnit 9 d.nanos "s"
  else if 1000000 ≤ d.nanos then inUnit 6 d.nanos "ms"
  else if 1000 ≤ d.nanos then inUnit 3 d.nanos "µs"
  else inUnit 0 d.nanos "ns"

end Duration

end KeyLease
