/-!
# Written Time Spans

A span of time, counted in nanoseconds, is written in the largest of the four
units seconds, milliseconds, microseconds and nanoseconds that it reaches, with
as many decimals as it needs and no trailing zeros. A span of zero is written
in nanoseconds.

## Main definitions

* `spanText`: The written form of a span.
-/

namespace OutboxCluster

namespace Text

/-- Remove the zeros at the end of a run of digits. -/
def dropTrailingZeros (digits : List Char) : List Char :=
  (digits.reverse.dropWhile (· == '0')).reverse

/-- A fraction of a unit that has `places` decimal places below it, written
    after a point, or nothing when the fraction is zero. -/
def fractionText (places fraction : Nat) : String :=
  let digits := (toString fraction).toList
  let padded := List.replicate (places - digits.length) '0' ++ digits
  match dropTrailingZeros padded with
  | [] => ""
  | kept => "." ++ String.ofList kept

/-- A number of nanoseconds in a unit of `10 ^ places` of them. -/
def inUnit (places : Nat) (unit : String) (nanos : Nat) : String :=
  let size := Nat.pow 10 places
  toString (nanos / size) ++ fractionText places (nanos % size) ++ unit

/-- The written form of a span. -/
def spanText (nanos : Nat) : String :=
  if 1000000000 ≤ nanos then inUnit 9 "s" nanos
  else if 1000000 ≤ nanos then inUnit 6 "ms" nanos
  else if 1000 ≤ nanos then inUnit 3 "µs" nanos
  else inUnit 0 "ns" nanos

end Text

end OutboxCluster
