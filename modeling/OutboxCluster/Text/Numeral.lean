/-!
# Decimal Numerals

How a number or a truth value is read from the text of a single setting. The
text must be the numeral and nothing else: one optional sign, at least one
digit, no separators. A minus sign belongs to signed numbers only, so even
minus zero is refused where a number cannot be negative. A numeral outside the
range of its word is refused rather than wrapped.

## Main definitions

* `natural?`: The number written by a non-empty run of digits.
* `word64?`, `word32?`, `integer64?`: Numerals bounded by a machine word.
* `truth?`: The two words `true` and `false`.
-/

namespace OutboxCluster

namespace Text

/-- The value of a decimal digit. -/
def digit? (c : Char) : Option Nat :=
  if '0' ≤ c ∧ c ≤ '9' then some (c.toNat - '0'.toNat) else none

/-- The number that `digits` continue, when `start` has been read so far. -/
def continueNatural? (start : Nat) (digits : List Char) : Option Nat :=
  digits.foldlM (fun value c => (digit? c).map (10 * value + ·)) start

/-- The number written by a non-empty run of digits. -/
def natural? (digits : List Char) : Option Nat :=
  if digits.isEmpty then none else continueNatural? 0 digits

/-- An unsigned numeral: digits after an optional plus sign. -/
def unsigned? : List Char → Option Nat
  | '+' :: digits => natural? digits
  | digits => natural? digits

/-- A signed numeral: digits after an optional sign. -/
def signed? : List Char → Option Int
  | '+' :: digits => (natural? digits).map Int.ofNat
  | '-' :: digits => (natural? digits).map fun n => -(Int.ofNat n)
  | digits => (natural? digits).map Int.ofNat

/-- Whether a number fits a signed 64-bit word. -/
def fitsInt64 (n : Int) : Bool :=
  -9223372036854775808 ≤ n && n ≤ 9223372036854775807

/-- An unsigned numeral below 2^64. -/
def word64? (s : List Char) : Option UInt64 :=
  match unsigned? s with
  | some n => if n < 18446744073709551616 then some (UInt64.ofNat n) else none
  | none => none

/-- An unsigned numeral below 2^32. -/
def word32? (s : List Char) : Option UInt32 :=
  match unsigned? s with
  | some n => if n < 4294967296 then some (UInt32.ofNat n) else none
  | none => none

/-- A signed numeral that fits a 64-bit word. -/
def integer64? (s : List Char) : Option Int64 :=
  match signed? s with
  | some n => if fitsInt64 n then some (Int64.ofInt n) else none
  | none => none

/-- The two truth values, written in lower case. -/
def truth? (s : List Char) : Option Bool :=
  if s = "true".toList then some true
  else if s = "false".toList then some false
  else none

end Text

end OutboxCluster
